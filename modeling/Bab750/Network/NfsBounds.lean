import Bab750.Network.NfsRuns
import Bab750.Network.Send

/-!
# Where the replies of an NFS server are read and written

The reply handlers of `net/nfs.c`, access by access: what they read of the datagram and of
its copy in `rpc_pkt`, what they write of `rpc_pkt`, the file handles, and `nfs_path_buff`,
and the calls of `store_block`.
-/

namespace Bab750
namespace Network
namespace Nfs

open Foundation

variable {s : NfsClient} {packet stack pkt other : Buffer} {dest : BitVec 32} {len : Nat}

/-!
# Accesses
-/

/-- `sizeof (struct rpc_t)`. -/
def rpcSize : Nat := 2048

/-- `sizeof (rpc_pkt.u.reply)`. -/
def replySize : Nat := 100

/-- The size of `nfs_path_buff`. -/
def nfsPathSize : Nat := 2048

def nfsFhsize : Nat := 32

inductive ReplyAccess where
  /-- A byte of the datagram is read. -/
  | packet (offset : Nat)
  /-- A byte of `rpc_pkt` is read. -/
  | copied (offset : Nat)
  /-- A byte of `rpc_pkt` is written. -/
  | rpc (offset : Nat)
  | dirfh (offset : Nat)
  | filefh (offset : Nat)
  | path (offset : Int)
  /-- `store_block` is called. -/
  | store (rlen : Nat)
deriving DecidableEq

/-- The access stays in a datagram and its copy, the arrays, and the length of a request. -/
def ReplyAccess.Inside (len : Nat) (nfsLen : Int) : ReplyAccess -> Prop
  | .packet offset => offset < len
  | .copied offset => offset < len ∧ offset < rpcSize
  | .rpc offset => offset < rpcSize
  | .dirfh offset => offset < nfsFhsize
  | .filefh offset => offset < nfsFhsize
  | .path offset => 0 <= offset ∧ offset < nfsPathSize
  | .store rlen => replySize + rlen <= len ∧ (rlen : Int) <= nfsLen

def AllInside (len : Nat) (nfsLen : Int) (accesses : List ReplyAccess) : Prop :=
  forall access, access ∈ accesses -> access.Inside len nfsLen

/-- The accesses of a `memcpy` to or from some bytes. -/
def block (access : Nat -> ReplyAccess) (start count : Nat) : List ReplyAccess :=
  (List.range count).map (fun i => access (start + i))

/-- `memcpy` of the datagram to `rpc_pkt`. -/
def copyAccesses (count : Nat) : List ReplyAccess :=
  block .packet 0 count ++ block .rpc 0 count

/-- A word of `rpc_pkt` is read. -/
def wordAccesses (i : Nat) : List ReplyAccess := block .copied (4 * i) 4

/-- Fields that are to be zero are looked at up to the first one that is not. -/
def checkAccesses (pkt : Buffer) : List Nat -> List ReplyAccess
  | [] => []
  | i :: fields =>
      wordAccesses i ++ if rpcWord pkt i = 0#32 then checkAccesses pkt fields else []

/-- The number of the reply, and the fields behind it when it is the current one. -/
def headerAccesses (s : NfsClient) (pkt : Buffer) (fields : List Nat) : List ReplyAccess :=
  wordAccesses 0 ++ if rpcWord pkt 0 = s.rpcId then checkAccesses pkt fields else []

/-- The places of `rstatus`, `verifier`, and `astatus`. -/
def rpcFields : List Nat := [2, 3, 5]

/-- The same, and the status of the call in front of the data. -/
def statusFields : List Nat := [2, 3, 5, 6]

/-!
# The reply handlers
-/

/-- `rpc_lookup_reply`. -/
def rpcLookupAccesses (s : NfsClient) (prog : BitVec 32) (pkt : Buffer) (len : Nat) :
    List ReplyAccess :=
  copyAccesses len ++ headerAccesses s pkt rpcFields ++
    if rpcWord pkt 0 ≠ s.rpcId then []
    else if rpcRefused pkt then []
    else if prog = progMount then wordAccesses 6
    else if prog = progNfs then wordAccesses 6
    else []

/-- `nfs_mount_reply`. -/
def nfsMountAccesses (s : NfsClient) (pkt : Buffer) (len : Nat) : List ReplyAccess :=
  copyAccesses len ++ headerAccesses s pkt statusFields ++
    if rpcWord pkt 0 ≠ s.rpcId then []
    else if rpcRefused pkt ∨ rpcWord pkt 6 ≠ 0#32 then []
    else block .copied 28 nfsFhsize ++ block .dirfh 0 nfsFhsize

/-- `nfs_umountall_reply`. -/
def nfsUmountallAccesses (s : NfsClient) (pkt : Buffer) (len : Nat) : List ReplyAccess :=
  copyAccesses len ++ headerAccesses s pkt rpcFields ++
    if rpcWord pkt 0 ≠ s.rpcId then []
    else if rpcRefused pkt then []
    else block .dirfh 0 nfsFhsize

/-- `nfs_lookup_reply`. -/
def nfsLookupAccesses (s : NfsClient) (pkt : Buffer) (len : Nat) : List ReplyAccess :=
  copyAccesses len ++ headerAccesses s pkt statusFields ++
    if rpcWord pkt 0 ≠ s.rpcId then []
    else if rpcRefused pkt ∨ rpcWord pkt 6 ≠ 0#32 then []
    else block .copied 28 nfsFhsize ++ block .filefh 0 nfsFhsize

/-- `memcpy` of a link target into the path, and the NUL behind it, whose place is computed
with the length as a signed number. -/
def targetAccesses (pathlen : Nat) (rlen : BitVec 32) : List ReplyAccess :=
  block .copied 32 rlen.toNat ++ block (fun i => .path i) pathlen rlen.toNat ++
    [.path (pathlen + rlen.toInt)]

/-- `nfs_readlink_reply`. -/
def nfsReadlinkAccesses (s : NfsClient) (pkt : Buffer) (len : Nat) : List ReplyAccess :=
  copyAccesses len ++ headerAccesses s pkt statusFields ++
    if rpcWord pkt 0 ≠ s.rpcId then []
    else if rpcRefused pkt ∨ rpcWord pkt 6 ≠ 0#32 then []
    else
      wordAccesses 7 ++ [.copied 32] ++
        if pkt 32 ≠ 0x2f#8 then
          -- `strcat` of the slash
          block (fun i => .path i) s.nfsPath.length 2 ++
            targetAccesses (s.nfsPath.length + 1) (rpcWord pkt 7)
        else targetAccesses 0 (rpcWord pkt 7)

def errorAccesses (pkt : Buffer) : List ReplyAccess :=
  wordAccesses 2 ++
    if rpcWord pkt 2 ≠ 0#32 then []
    else wordAccesses 5 ++ if rpcWord pkt 5 ≠ 0#32 then [] else wordAccesses 6

/-- `nfs_read_reply`; it copies the header of a reply, however long the datagram is. -/
def nfsReadAccesses (s : NfsClient) (pkt : Buffer) : List ReplyAccess :=
  copyAccesses replySize ++ headerAccesses s pkt statusFields ++
    if rpcWord pkt 0 ≠ s.rpcId then []
    else if rpcRefused pkt ∨ rpcWord pkt 6 ≠ 0#32 then errorAccesses pkt
    else
      wordAccesses 24 ++ .store (rpcWord pkt 24).toNat ::
        block .packet replySize (rpcWord pkt 24).toNat

def nfsHandlerAccesses (s : NfsClient) (packet : Buffer) (dest : BitVec 32) (len : Nat)
    (stack : Buffer) : List ReplyAccess :=
  if dest ≠ s.nfsOurPort then []
  else
    let pkt := rpcPkt packet len stack
    match s.nfsState with
    | .prclookupProgMountReq => rpcLookupAccesses s progMount pkt len
    | .prclookupProgNfsReq => rpcLookupAccesses s progNfs pkt len
    | .mountReq => nfsMountAccesses s pkt len
    | .umountReq => nfsUmountallAccesses s pkt len
    | .lookupReq => nfsLookupAccesses s pkt len
    | .readlinkReq => nfsReadlinkAccesses s pkt len
    | .readReq => nfsReadAccesses s packet

/-!
# Which replies fit
-/

/-- The fields that are looked at are in the datagram. -/
def ChecksFit (pkt : Buffer) (len : Nat) : List Nat -> Prop
  | [] => True
  | i :: fields => 4 * i + 4 <= len ∧ (rpcWord pkt i = 0#32 -> ChecksFit pkt len fields)

/-- The datagram fits into `rpc_pkt`, and has the part of the header that is looked at. -/
def HeaderFits (s : NfsClient) (pkt : Buffer) (len : Nat) (fields : List Nat) : Prop :=
  len <= rpcSize ∧ 4 <= len ∧ (rpcWord pkt 0 = s.rpcId -> ChecksFit pkt len fields)

/-- The reply is the one to the last request, and no field refuses it. -/
def Accepted (s : NfsClient) (pkt : Buffer) (fields : List Nat) : Prop :=
  rpcWord pkt 0 = s.rpcId ∧ forall i, i ∈ fields -> rpcWord pkt i = 0#32

def targetStart (s : NfsClient) (pkt : Buffer) : Nat :=
  if pkt 32 ≠ 0x2f#8 then s.nfsPath.length + 1 else 0

def ReplyFits (s : NfsClient) (packet : Buffer) (len : Nat) (stack : Buffer) : Prop :=
  let pkt := rpcPkt packet len stack
  match s.nfsState with
  | .prclookupProgMountReq =>
      HeaderFits s pkt len rpcFields ∧ (Accepted s pkt rpcFields -> 28 <= len)
  | .prclookupProgNfsReq =>
      HeaderFits s pkt len rpcFields ∧ (Accepted s pkt rpcFields -> 28 <= len)
  | .mountReq =>
      HeaderFits s pkt len statusFields ∧ (Accepted s pkt statusFields -> 60 <= len)
  | .umountReq => HeaderFits s pkt len rpcFields
  | .lookupReq =>
      HeaderFits s pkt len statusFields ∧ (Accepted s pkt statusFields -> 60 <= len)
  | .readlinkReq =>
      HeaderFits s pkt len statusFields ∧
        (Accepted s pkt statusFields ->
          33 <= len ∧ 32 + (rpcWord pkt 7).toNat <= len ∧
            targetStart s pkt + (rpcWord pkt 7).toNat < nfsPathSize)
  | .readReq =>
      100 <= len ∧
        (Accepted s packet statusFields ->
          100 + (rpcWord packet 24).toNat <= len ∧ ((rpcWord packet 24).toNat : Int) <= s.nfsLen)

/-!
# Accesses inside
-/

section

variable {nfsLen : Int} {first second : List ReplyAccess} {access : Nat -> ReplyAccess}
  {start count bound : Nat}

theorem allInside_nil : AllInside len nfsLen [] := by
  intro access haccess
  cases haccess

theorem allInside_cons {head : ReplyAccess} :
    AllInside len nfsLen (head :: first) <->
      head.Inside len nfsLen ∧ AllInside len nfsLen first := by
  unfold AllInside
  exact List.forall_mem_cons

theorem allInside_append :
    AllInside len nfsLen (first ++ second) <->
      AllInside len nfsLen first ∧ AllInside len nfsLen second := by
  unfold AllInside
  exact List.forall_mem_append

theorem allInside_block :
    AllInside len nfsLen (block access start count) <->
      forall i, i < count -> (access (start + i)).Inside len nfsLen := by
  unfold AllInside block
  constructor
  · intro h i hi
    exact h _ (List.mem_map.2 ⟨i, List.mem_range.2 hi, rfl⟩)
  · intro h access haccess
    obtain ⟨i, hi, rfl⟩ := List.mem_map.1 haccess
    exact h i (List.mem_range.1 hi)

theorem forall_below : (forall i, i < count -> start + i < bound) <->
    count = 0 ∨ start + count <= bound := by
  constructor
  · intro h
    by_cases hzero : count = 0
    · exact Or.inl hzero
    · have hlast := h (count - 1) (by omega)
      omega
  · intro h i hi
    omega

theorem packet_inside : AllInside len nfsLen (block .packet start count) <->
    count = 0 ∨ start + count <= len := by
  rw [allInside_block, ← forall_below]
  rfl

theorem copied_inside (hlen : len <= rpcSize) :
    AllInside len nfsLen (block .copied start count) <-> count = 0 ∨ start + count <= len := by
  rw [allInside_block, ← forall_below]
  exact forall_congr' (fun i => imp_congr_right (fun _ =>
    ⟨fun h => h.1, fun h => ⟨h, Nat.lt_of_lt_of_le h hlen⟩⟩))

theorem path_inside : AllInside len nfsLen (block (fun i => .path i) start count) <->
    count = 0 ∨ start + count <= nfsPathSize := by
  rw [allInside_block, ← forall_below]
  refine forall_congr' (fun i => imp_congr_right (fun _ => ?_))
  unfold ReplyAccess.Inside
  omega

theorem handle_inside : AllInside len nfsLen (block .dirfh 0 nfsFhsize) ∧
    AllInside len nfsLen (block .filefh 0 nfsFhsize) := by
  rw [allInside_block, allInside_block]
  exact ⟨fun i hi => (Nat.zero_add i).symm ▸ hi, fun i hi => (Nat.zero_add i).symm ▸ hi⟩

theorem copy_inside : AllInside len nfsLen (copyAccesses count) <->
    count <= len ∧ count <= rpcSize := by
  unfold copyAccesses
  rw [allInside_append, packet_inside, allInside_block]
  have hrpc := @forall_below 0 count rpcSize
  constructor
  · rintro ⟨hpacket, hwrite⟩
    have hbound := hrpc.1 hwrite
    omega
  · rintro ⟨hpacket, hwrite⟩
    exact ⟨by omega, hrpc.2 (by omega)⟩

theorem word_inside (hlen : len <= rpcSize) (i : Nat) :
    AllInside len nfsLen (wordAccesses i) <-> 4 * i + 4 <= len := by
  unfold wordAccesses
  rw [copied_inside hlen]
  omega

theorem checks_inside (hlen : len <= rpcSize) (fields : List Nat) :
    AllInside len nfsLen (checkAccesses pkt fields) <-> ChecksFit pkt len fields := by
  induction fields with
  | nil =>
      exact ⟨fun _ => trivial, fun _ => allInside_nil⟩
  | cons i fields ih =>
      unfold checkAccesses ChecksFit
      rw [allInside_append, word_inside hlen]
      by_cases hzero : rpcWord pkt i = 0#32
      · rw [if_pos hzero, ih]
        exact and_congr_right (fun _ => ⟨fun h _ => h, fun h => h hzero⟩)
      · rw [if_neg hzero]
        exact and_congr_right (fun _ => ⟨fun _ h => absurd h hzero, fun _ => allInside_nil⟩)

theorem header_inside (hlen : len <= rpcSize) (fields : List Nat) :
    AllInside len nfsLen (headerAccesses s pkt fields) <->
      4 <= len ∧ (rpcWord pkt 0 = s.rpcId -> ChecksFit pkt len fields) := by
  unfold headerAccesses
  rw [allInside_append, word_inside hlen]
  by_cases hid : rpcWord pkt 0 = s.rpcId
  · rw [if_pos hid, checks_inside hlen]
    exact and_congr_right (fun _ => ⟨fun h _ => h, fun h => h hid⟩)
  · rw [if_neg hid]
    exact and_congr_right (fun _ => ⟨fun _ h => absurd h hid, fun _ => allInside_nil⟩)

theorem accepted_rpc : Accepted s pkt rpcFields <->
    rpcWord pkt 0 = s.rpcId ∧ ¬ rpcRefused pkt := by
  unfold Accepted rpcFields rpcRefused
  simp only [List.forall_mem_cons, List.not_mem_nil, false_implies, implies_true, and_true,
    not_or, not_not]

theorem accepted_status : Accepted s pkt statusFields <->
    rpcWord pkt 0 = s.rpcId ∧ ¬ (rpcRefused pkt ∨ rpcWord pkt 6 ≠ 0#32) := by
  unfold Accepted statusFields rpcRefused
  simp only [List.forall_mem_cons, List.not_mem_nil, false_implies, implies_true, and_true,
    not_or, not_not, and_assoc]

theorem reply_inside (fields : List Nat) :
    AllInside len nfsLen (copyAccesses len ++ headerAccesses s pkt fields ++ first) <->
      HeaderFits s pkt len fields ∧ AllInside len nfsLen first := by
  unfold HeaderFits
  rw [allInside_append, allInside_append, copy_inside]
  constructor
  · rintro ⟨⟨⟨_, hlen⟩, hheader⟩, hfirst⟩
    exact ⟨⟨hlen, (header_inside hlen fields).1 hheader⟩, hfirst⟩
  · rintro ⟨⟨hlen, hheader⟩, hfirst⟩
    exact ⟨⟨⟨Nat.le_refl len, hlen⟩, (header_inside hlen fields).2 hheader⟩, hfirst⟩

theorem accepted_inside {refused : Prop} [Decidable refused] {accepted : Prop}
    (haccepted : accepted <-> rpcWord pkt 0 = s.rpcId ∧ ¬ refused) :
    AllInside len nfsLen
        (if rpcWord pkt 0 ≠ s.rpcId then [] else if refused then [] else first) <->
      (accepted -> AllInside len nfsLen first) := by
  by_cases hid : rpcWord pkt 0 = s.rpcId
  · rw [if_neg (not_not.2 hid)]
    by_cases hrefused : refused
    · rw [if_pos hrefused]
      exact ⟨fun _ h => absurd hrefused (haccepted.1 h).2, fun _ => allInside_nil⟩
    · rw [if_neg hrefused]
      exact ⟨fun h _ => h, fun h => h (haccepted.2 ⟨hid, hrefused⟩)⟩
  · rw [if_pos hid]
    exact ⟨fun _ h => absurd (haccepted.1 h).1 hid, fun _ => allInside_nil⟩

theorem rpcLookup_inside {prog : BitVec 32} (hprog : prog = progMount ∨ prog = progNfs) :
    AllInside len nfsLen (rpcLookupAccesses s prog pkt len) <->
      HeaderFits s pkt len rpcFields ∧ (Accepted s pkt rpcFields -> 28 <= len) := by
  unfold rpcLookupAccesses
  rw [reply_inside]
  refine and_congr_right (fun hfits => ?_)
  rw [accepted_inside accepted_rpc]
  refine imp_congr_right (fun _ => ?_)
  have hword : AllInside len nfsLen (wordAccesses 6) <-> 28 <= len := word_inside hfits.1 6
  split
  · exact hword
  · rw [if_pos (hprog.resolve_left ‹_›)]
    exact hword

theorem handle_copied_inside {handle : List ReplyAccess}
    (hhandle : AllInside len nfsLen handle) (hlen : len <= rpcSize) :
    AllInside len nfsLen (block .copied 28 nfsFhsize ++ handle) <-> 60 <= len := by
  rw [allInside_append, copied_inside hlen, and_iff_left hhandle]
  unfold nfsFhsize
  omega

theorem nfsMount_inside :
    AllInside len nfsLen (nfsMountAccesses s pkt len) <->
      HeaderFits s pkt len statusFields ∧ (Accepted s pkt statusFields -> 60 <= len) := by
  unfold nfsMountAccesses
  rw [reply_inside]
  refine and_congr_right (fun hfits => ?_)
  rw [accepted_inside accepted_status]
  exact imp_congr_right (fun _ => handle_copied_inside handle_inside.1 hfits.1)

theorem nfsLookup_inside :
    AllInside len nfsLen (nfsLookupAccesses s pkt len) <->
      HeaderFits s pkt len statusFields ∧ (Accepted s pkt statusFields -> 60 <= len) := by
  unfold nfsLookupAccesses
  rw [reply_inside]
  refine and_congr_right (fun hfits => ?_)
  rw [accepted_inside accepted_status]
  exact imp_congr_right (fun _ => handle_copied_inside handle_inside.2 hfits.1)

theorem nfsUmountall_inside :
    AllInside len nfsLen (nfsUmountallAccesses s pkt len) <->
      HeaderFits s pkt len rpcFields := by
  unfold nfsUmountallAccesses
  rw [reply_inside]
  refine and_iff_left ?_
  rw [accepted_inside accepted_rpc]
  exact fun _ => handle_inside.1

theorem target_inside {pathlen : Nat} {rlen : BitVec 32} (hlen : len <= rpcSize)
    (hbyte : 33 <= len) :
    AllInside len nfsLen (targetAccesses pathlen rlen) <->
      32 + rlen.toNat <= len ∧ pathlen + rlen.toNat < nfsPathSize := by
  have hlast : AllInside len nfsLen [.path (pathlen + rlen.toInt)] <->
      0 <= pathlen + rlen.toInt ∧ pathlen + rlen.toInt < nfsPathSize := by
    rw [allInside_cons, and_iff_left allInside_nil]
    rfl
  have hlt := rlen.isLt
  unfold targetAccesses
  rw [allInside_append, allInside_append, copied_inside hlen, path_inside, hlast,
    BitVec.toInt_eq_toNat_cond]
  unfold rpcSize at hlen
  unfold nfsPathSize
  split
  · omega
  · omega

theorem nfsReadlink_inside :
    AllInside len nfsLen (nfsReadlinkAccesses s pkt len) <->
      HeaderFits s pkt len statusFields ∧
        (Accepted s pkt statusFields ->
          33 <= len ∧ 32 + (rpcWord pkt 7).toNat <= len ∧
            targetStart s pkt + (rpcWord pkt 7).toNat < nfsPathSize) := by
  unfold nfsReadlinkAccesses
  rw [reply_inside]
  refine and_congr_right (fun hfits => ?_)
  rw [accepted_inside accepted_status]
  refine imp_congr_right (fun _ => ?_)
  have hlen := hfits.1
  have hfirst : AllInside len nfsLen (wordAccesses 7 ++ [.copied 32]) <-> 33 <= len := by
    rw [allInside_append, word_inside hlen, allInside_cons, and_iff_left allInside_nil]
    unfold ReplyAccess.Inside
    omega
  rw [allInside_append, hfirst]
  refine and_congr_right (fun hbyte => ?_)
  unfold targetStart
  split
  · rw [allInside_append, target_inside hlen hbyte, path_inside]
    omega
  · exact target_inside hlen hbyte

theorem AllInside.mono {more : Nat} (h : AllInside len nfsLen first) (hmore : len <= more) :
    AllInside more nfsLen first := by
  intro access haccess
  have hinside := h access haccess
  cases access with
  | packet offset =>
      exact Nat.lt_of_lt_of_le hinside hmore
  | copied offset =>
      exact ⟨Nat.lt_of_lt_of_le hinside.1 hmore, hinside.2⟩
  | store rlen =>
      exact ⟨Nat.le_trans hinside.1 hmore, hinside.2⟩
  | rpc offset =>
      exact hinside
  | dirfh offset =>
      exact hinside
  | filefh offset =>
      exact hinside
  | path offset =>
      exact hinside

theorem readHeader_inside (hlen : replySize <= len) :
    AllInside len nfsLen (headerAccesses s pkt statusFields) ∧
      AllInside len nfsLen (errorAccesses pkt) ∧ AllInside len nfsLen (wordAccesses 24) := by
  have hsize : replySize <= rpcSize := by decide
  have hword : forall i, i <= 24 -> AllInside replySize nfsLen (wordAccesses i) := by
    intro i hi
    rw [word_inside hsize]
    unfold replySize
    omega
  have hchecks : ChecksFit pkt replySize statusFields :=
    ⟨by decide, fun _ => ⟨by decide, fun _ => ⟨by decide, fun _ =>
      ⟨by decide, fun _ => trivial⟩⟩⟩⟩
  refine ⟨AllInside.mono ((header_inside hsize _).2 ⟨by decide, fun _ => hchecks⟩) hlen,
    AllInside.mono ?_ hlen, (hword 24 (by decide)).mono hlen⟩
  unfold errorAccesses
  refine allInside_append.2 ⟨hword 2 (by decide), ?_⟩
  split
  · exact allInside_nil
  · refine allInside_append.2 ⟨hword 5 (by decide), ?_⟩
    split
    · exact allInside_nil
    · exact hword 6 (by decide)

theorem nfsRead_inside :
    AllInside len nfsLen (nfsReadAccesses s pkt) <->
      100 <= len ∧
        (Accepted s pkt statusFields ->
          100 + (rpcWord pkt 24).toNat <= len ∧ ((rpcWord pkt 24).toNat : Int) <= nfsLen) := by
  have hcopy : AllInside len nfsLen (copyAccesses replySize) <-> 100 <= len := by
    rw [copy_inside]
    exact and_iff_left (by decide)
  unfold nfsReadAccesses
  rw [allInside_append, allInside_append, hcopy, and_assoc]
  refine and_congr_right (fun hlen => ?_)
  obtain ⟨hheader, herror, hcount⟩ := @readHeader_inside s pkt len nfsLen hlen
  rw [and_iff_right hheader, accepted_status]
  by_cases hid : rpcWord pkt 0 = s.rpcId
  · rw [if_neg (not_not.2 hid)]
    by_cases hrefused : rpcRefused pkt ∨ rpcWord pkt 6 ≠ 0#32
    · rw [if_pos hrefused]
      exact ⟨fun _ h => absurd hrefused h.2, fun _ => herror⟩
    · rw [if_neg hrefused, allInside_append, and_iff_right hcount, allInside_cons, packet_inside]
      constructor
      · intro h _
        exact h.1
      · intro h
        have hstore := h ⟨hid, hrefused⟩
        exact ⟨hstore, Or.inr hstore.1⟩
  · rw [if_pos hid]
    exact ⟨fun _ h => absurd h.1 hid, fun _ => allInside_nil⟩

end

theorem nfs_reply_bounds_iff :
    AllInside len s.nfsLen (nfsHandlerAccesses s packet dest len stack) <->
      dest ≠ s.nfsOurPort ∨ ReplyFits s packet len stack := by
  unfold nfsHandlerAccesses ReplyFits
  by_cases hport : dest = s.nfsOurPort
  · rw [if_neg (not_not.2 hport), or_iff_right (not_not.2 hport)]
    cases s.nfsState with
    | prclookupProgMountReq =>
        exact rpcLookup_inside (Or.inl rfl)
    | prclookupProgNfsReq =>
        exact rpcLookup_inside (Or.inr rfl)
    | mountReq =>
        exact nfsMount_inside
    | umountReq =>
        exact nfsUmountall_inside
    | lookupReq =>
        exact nfsLookup_inside
    | readlinkReq =>
        exact nfsReadlink_inside
    | readReq =>
        exact nfsRead_inside
  · rw [if_pos hport]
    exact ⟨fun _ => Or.inl hport, fun _ => allInside_nil⟩

/-!
# Replies that fit

The handler then depends on the bytes of the datagram only.
-/

section

variable (hagree : forall i, i < len -> pkt i = other i)
include hagree

theorem rpcWord_agree {i : Nat} (hi : 4 * i + 4 <= len) : rpcWord pkt i = rpcWord other i := by
  unfold rpcWord
  rw [hagree (4 * i) (by omega), hagree (4 * i + 1) (by omega), hagree (4 * i + 2) (by omega),
    hagree (4 * i + 3) (by omega)]

theorem bytesAt_agree {start count : Nat} (h : start + count <= len) :
    bytesAt pkt start count = bytesAt other start count :=
  bytesAt_congr (fun k hk => hagree (start + k) (by omega))

theorem rpcHandle_agree (h : 60 <= len) : rpcHandle pkt = rpcHandle other := by
  unfold rpcHandle
  apply List.map_congr_left
  intro i hi
  rw [List.mem_range] at hi
  exact rpcWord_agree hagree (by omega)

theorem checks_agree (fields : List Nat) (hfits : ChecksFit pkt len fields) :
    (forall i, i ∈ fields -> rpcWord pkt i = 0#32) <->
      forall i, i ∈ fields -> rpcWord other i = 0#32 := by
  induction fields with
  | nil =>
      exact iff_of_true (fun i hi => absurd hi List.not_mem_nil)
        (fun i hi => absurd hi List.not_mem_nil)
  | cons i fields ih =>
      rw [List.forall_mem_cons, List.forall_mem_cons, ← rpcWord_agree hagree hfits.1]
      exact and_congr_right (fun hzero => ih (hfits.2 hzero))

theorem accepted_agree {fields : List Nat} (hfits : HeaderFits s pkt len fields) :
    Accepted s pkt fields <-> Accepted s other fields := by
  unfold Accepted
  rw [← rpcWord_agree hagree (show 4 * 0 + 4 <= len from hfits.2.1)]
  exact and_congr_right (fun hid => checks_agree hagree fields (hfits.2.2 hid))

theorem reply_agree {α : Type} {fields : List Nat} {refused others : Prop} [Decidable refused]
    [Decidable others] (hfits : HeaderFits s pkt len fields)
    (haccepted : Accepted s pkt fields <-> rpcWord pkt 0 = s.rpcId ∧ ¬ refused)
    (hothers : Accepted s other fields <-> rpcWord other 0 = s.rpcId ∧ ¬ others)
    {failed done also : α} (hdone : Accepted s pkt fields -> done = also) :
    (if rpcWord pkt 0 ≠ s.rpcId then failed else if refused then failed else done) =
      if rpcWord other 0 ≠ s.rpcId then failed else if others then failed else also := by
  have hboth := accepted_agree hagree hfits
  by_cases h : Accepted s pkt fields
  · obtain ⟨hid, hrefused⟩ := haccepted.1 h
    obtain ⟨hid', hothers⟩ := hothers.1 (hboth.1 h)
    rw [if_neg (not_not.2 hid), if_neg hrefused, if_neg (not_not.2 hid'), if_neg hothers, hdone h]
  · have hother := mt hboth.2 h
    rw [haccepted, not_and, not_not] at h
    rw [hothers, not_and, not_not] at hother
    by_cases hid : rpcWord pkt 0 = s.rpcId
    · have hid' := (rpcWord_agree hagree (show 4 * 0 + 4 <= len from hfits.2.1)).symm.trans hid
      rw [if_neg (not_not.2 hid), if_pos (h hid), if_neg (not_not.2 hid'), if_pos (hother hid')]
    · have hid' := mt (rpcWord_agree hagree (show 4 * 0 + 4 <= len from hfits.2.1)).trans hid
      rw [if_pos hid, if_pos hid']

theorem rpcLookupReply_agree {prog : BitVec 32}
    (hfits : HeaderFits s pkt len rpcFields ∧ (Accepted s pkt rpcFields -> 28 <= len)) :
    rpcLookupReply s prog pkt = rpcLookupReply s prog other := by
  unfold rpcLookupReply
  refine reply_agree hagree hfits.1 accepted_rpc accepted_rpc (fun h => ?_)
  rw [rpcWord_agree hagree (show 4 * 6 + 4 <= len from hfits.2 h)]

theorem nfsMountReply_agree
    (hfits : HeaderFits s pkt len statusFields ∧ (Accepted s pkt statusFields -> 60 <= len)) :
    nfsMountReply s pkt = nfsMountReply s other := by
  unfold nfsMountReply
  refine reply_agree hagree hfits.1 accepted_status accepted_status (fun h => ?_)
  rw [rpcHandle_agree hagree (hfits.2 h)]

theorem nfsLookupReply_agree
    (hfits : HeaderFits s pkt len statusFields ∧ (Accepted s pkt statusFields -> 60 <= len)) :
    nfsLookupReply s pkt = nfsLookupReply s other := by
  unfold nfsLookupReply
  refine reply_agree hagree hfits.1 accepted_status accepted_status (fun h => ?_)
  rw [rpcHandle_agree hagree (hfits.2 h)]

theorem nfsUmountallReply_agree (hfits : HeaderFits s pkt len rpcFields) :
    nfsUmountallReply s pkt = nfsUmountallReply s other := by
  unfold nfsUmountallReply
  exact reply_agree hagree hfits accepted_rpc accepted_rpc (fun _ => rfl)

theorem nfsReadlinkReply_agree
    (hfits : HeaderFits s pkt len statusFields ∧
      (Accepted s pkt statusFields -> 33 <= len ∧ 32 + (rpcWord pkt 7).toNat <= len)) :
    nfsReadlinkReply s pkt = nfsReadlinkReply s other := by
  unfold nfsReadlinkReply
  refine reply_agree hagree hfits.1 accepted_status accepted_status (fun h => ?_)
  obtain ⟨hbyte, htarget⟩ := hfits.2 h
  have hlength : rpcWord pkt 7 = rpcWord other 7 := rpcWord_agree hagree (by omega)
  rw [← hlength, ← hagree 32 (by omega), bytesAt_agree hagree htarget]

theorem nfsReadReply_agree
    (hfits : 100 <= len ∧
      (Accepted s pkt statusFields -> 100 + (rpcWord pkt 24).toNat <= len)) :
    nfsReadReply s pkt = nfsReadReply s other := by
  have hword : forall i, i <= 24 -> rpcWord pkt i = rpcWord other i :=
    fun i hi => rpcWord_agree hagree (by omega)
  have hrefused : rpcRefused other <-> rpcRefused pkt := by
    unfold rpcRefused
    rw [hword 2 (by decide), hword 3 (by decide), hword 5 (by decide)]
  unfold nfsReadReply
  rw [← hword 0 (by decide), ← hword 2 (by decide), ← hword 5 (by decide),
    ← hword 6 (by decide), ← hword 24 (by decide)]
  by_cases hid : rpcWord pkt 0 = s.rpcId
  · rw [if_neg (not_not.2 hid), if_neg (not_not.2 hid)]
    by_cases hfailed : rpcRefused pkt ∨ rpcWord pkt 6 ≠ 0#32
    · rw [if_pos hfailed, if_pos (hfailed.imp_left hrefused.2)]
    · rw [if_neg hfailed, if_neg (mt (Or.imp_left hrefused.1) hfailed),
        bytesAt_agree hagree (hfits.2 (accepted_status.2 ⟨hid, hfailed⟩))]
  · rw [if_pos hid, if_pos hid]

end

/-- Neither what lies behind a datagram that fits nor what was on the stack has an effect. -/
theorem nfsHandler_agree {stackOther : Buffer}
    (hfits : dest ≠ s.nfsOurPort ∨ ReplyFits s packet len stack)
    (hagree : forall i, i < len -> packet i = other i) :
    nfsHandler s packet dest len stack = nfsHandler s other dest len stackOther := by
  have hcopied : forall i, i < len ->
      rpcPkt packet len stack i = rpcPkt other len stackOther i := by
    intro i hi
    unfold rpcPkt
    rw [if_pos hi, if_pos hi, hagree i hi]
  unfold nfsHandler
  by_cases hport : dest = s.nfsOurPort
  · rw [if_neg (not_not.2 hport), if_neg (not_not.2 hport)]
    have hfits := hfits.resolve_left (not_not.2 hport)
    unfold ReplyFits at hfits
    revert hfits
    dsimp only
    cases s.nfsState with
    | prclookupProgMountReq =>
        intro hfits
        dsimp only
        rw [rpcLookupReply_agree hcopied hfits]
    | prclookupProgNfsReq =>
        intro hfits
        dsimp only
        rw [rpcLookupReply_agree hcopied hfits]
    | mountReq =>
        intro hfits
        dsimp only
        rw [nfsMountReply_agree hcopied hfits]
    | umountReq =>
        intro hfits
        dsimp only
        rw [nfsUmountallReply_agree hcopied hfits]
    | lookupReq =>
        intro hfits
        dsimp only
        rw [nfsLookupReply_agree hcopied hfits]
    | readlinkReq =>
        intro hfits
        dsimp only
        rw [nfsReadlinkReply_agree hcopied
          ⟨hfits.1, fun h => ⟨(hfits.2 h).1, (hfits.2 h).2.1⟩⟩]
    | readReq =>
        intro hfits
        dsimp only
        rw [nfsReadReply_agree hagree ⟨hfits.1, fun h => (hfits.2 h).1⟩]
  · rw [if_pos hport, if_pos hport]

def emptyRead : List Byte :=
  ([5#32, 1#32] ++ List.replicate 22 0#32 ++ [1#32]).flatMap wordBytes

set_option maxRecDepth 4000 in
/-- The byte behind the datagram is stored. -/
theorem nfs_read_stores_behind :
    exists s, Run (Step shortFile) (nfsStart firstClient (ascii "/d") (ascii "f") [])
        ((shortExchanges.take 4).map Exchange.event) s ∧
      emptyRead.length = 100 ∧
      ¬ AllInside 100 s.nfsLen
        (nfsHandlerAccesses s (packetBuffer emptyRead (fun _ => 0xff#8)) 1000#32 100
          (fun _ => 0#8)) := by
  have hrun := @exchanges_run shortFile (nfsStart firstClient (ascii "/d") (ascii "f") [])
    (shortExchanges.take 4) (fun e he => shortExchanges_answers e (List.mem_of_mem_take he))
    (by decide)
  refine ⟨_, hrun, by decide, fun h => ?_⟩
  have hstore := h (.store 1) (by decide)
  exact absurd hstore.1 (by decide)

end Nfs
end Network
end Bab750
