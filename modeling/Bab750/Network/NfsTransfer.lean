import Bab750.Foundation.Run
import Bab750.Network.Nfs

/-!
# A download over NFS

The client of `net/nfs.c` with a server that tells the truth about one file. The network may
lose, repeat and delay requests and replies, and the timeout of the client may fire at any time.
-/

namespace Bab750
namespace Network

open Foundation

namespace Nfs

/-!
# Replies
-/

structure Reply where
  words : List (BitVec 32)
  data : List Byte

def Reply.payload (reply : Reply) : List Byte := reply.words.flatMap wordBytes ++ reply.data

structure Served where
  file : List Byte
  handle : List (BitVec 32)
  small : file.length < 2 ^ 31
  size : handle.length = 8

def Calls (request : RpcPacket) (prog proc : BitVec 32) : Prop :=
  request.words[3]? = some prog ∧ request.words[5]? = some proc

/-- An error in one of the fields of a reply. -/
inductive Refused (words : List (BitVec 32)) : Prop where
  | rstatus {code : BitVec 32} (h : words[2]? = some code) (hcode : code ≠ 0#32)
  | astatus {code : BitVec 32} (h : words[5]? = some code) (hcode : code ≠ 0#32)
  | status {code : BitVec 32} (h : words[6]? = some code) (hcode : code ≠ 0#32)

/-- The status says neither that a file is a directory nor that it is a link, and it is no number
that the client takes for a length. -/
def StatusOfFile (words : List (BitVec 32)) : Prop :=
  forall code, words[6]? = some code ->
    code.toNat < 2 ^ 31 ∧ code.toNat ≠ 21 ∧ code.toNat ≠ 22

/-- The bytes from an offset on: some, or none at the end of the file or behind it. -/
inductive Reads (file : List Byte) (offset : Nat) (reply : Reply) : Prop where
  | bytes (id type v2 : BitVec 32) (attributes : List (BitVec 32)) (count : Nat)
      (padding : List Byte) (hattributes : attributes.length = 17)
      (hwords : reply.words =
        [id, type, 0#32, 0#32, v2, 0#32, 0#32] ++ attributes ++ [BitVec.ofNat 32 count])
      (hdata : reply.data = (file.drop offset).take count ++ padding)
      (hinside : 0 < count -> offset + count <= file.length)
      (hend : count = 0 -> file.length <= offset)
  | refused (h : Refused reply.words) (hstatus : StatusOfFile reply.words)

inductive Finds (handle : List (BitVec 32)) (reply : Reply) : Prop where
  | found (id type v2 : BitVec 32) (attributes : List (BitVec 32))
      (hwords : reply.words =
        [id, type, 0#32, 0#32, v2, 0#32, 0#32] ++ handle ++ attributes)
  | refused (h : Refused reply.words)

/-- A reply to a request. Where the request neither looks the file up nor reads it, any reply
with its number will do. -/
structure Answers (x : Served) (request : RpcPacket) (reply : Reply) : Prop where
  id : reply.words[0]? = request.words[0]?
  lookup : Calls request progNfs nfsLookup -> Finds x.handle reply
  read : forall offset count : BitVec 32, Calls request progNfs nfsRead ->
    request.words.drop 6 = rpcAddCredentials ++ x.handle ++ [offset, count, 0#32] ->
      Reads x.file offset.toNat reply

/-!
# The system
-/

inductive Event where
  /-- A reply to a request arrives; `stale` is left over in the receive buffer. -/
  | deliver (request : RpcPacket) (reply : Reply) (dest : BitVec 32) (stale stack : Buffer)
  | timeout

def Enabled (x : Served) (s : NfsClient) : Event -> Prop
  | .deliver request reply _ _ _ => request ∈ s.sent ∧ Answers x request reply
  | .timeout => True

def next (s : NfsClient) : Event -> NfsClient
  | .deliver _ reply dest stale stack =>
      nfsHandler s (packetBuffer reply.payload stale) dest reply.payload.length stack
  | .timeout => nfsTimeout s

def Step (x : Served) (s : NfsClient) (event : Event) (u : NfsClient) : Prop :=
  Enabled x s event ∧ s.startedAgain = 0 ∧ u = next s event

/-!
# Words of a packet
-/

variable {reply : Reply} {i : Nat} {w : BitVec 32}

structure Numbered (first : BitVec 32) (s : NfsClient) : Prop where
  current : s.rpcId = first + BitVec.ofNat 32 s.sent.length
  ids : forall (k : Nat) (hk : k < s.sent.length),
    s.sent[k].words[0]? = some (first + BitVec.ofNat 32 (k + 1))

theorem Numbered.last {first : BitVec 32} {s : NfsClient} (h : Numbered first s)
    (hcount : s.sent.length < 2 ^ 32) {request : RpcPacket} (hrequest : request ∈ s.sent)
    (hid : request.words[0]? = some s.rpcId) : s.sent.getLast? = some request := by
  rcases List.getElem_of_mem hrequest with ⟨k, hk, hget⟩
  have hnumber := h.ids k hk
  rw [hget, hid, h.current] at hnumber
  have hsame := congrArg (fun v : BitVec 32 => (v - first).toNat) (Option.some.inj hnumber)
  simp only [BitVec.add_comm first, BitVec.add_sub_cancel, BitVec.toNat_ofNat] at hsame
  rw [Nat.mod_eq_of_lt hcount, Nat.mod_eq_of_lt (by omega)] at hsame
  have hindex : s.sent.length - 1 = k := by omega
  rw [List.getLast?_eq_getElem?, hindex, List.getElem?_eq_getElem hk, hget]

theorem Numbered.rpcReq {first : BitVec 32} {s : NfsClient} (h : Numbered first s)
    (prog proc : BitVec 32) (data : List (BitVec 32)) :
    Numbered first (rpcReq s prog proc data) := by
  have hlength : (Network.rpcReq s prog proc data).sent.length = s.sent.length + 1 := by
    unfold Network.rpcReq
    rw [List.length_append, List.length_singleton]
  have hcurrent : (Network.rpcReq s prog proc data).rpcId =
      first + BitVec.ofNat 32 (s.sent.length + 1) := by
    rw [BitVec.ofNat_add, ← BitVec.add_assoc, ← h.current]
    rfl
  constructor
  · rw [hlength]
    exact hcurrent
  · intro k hk
    rw [hlength] at hk
    by_cases hbefore : k < s.sent.length
    · have hold : (Network.rpcReq s prog proc data).sent[k] = s.sent[k] :=
        List.getElem_append_left hbefore
      rw [hold]
      exact h.ids k hbefore
    · have hlast : k = s.sent.length := by omega
      have hnew : (Network.rpcReq s prog proc data).sent[k].words[0]? =
          some (Network.rpcReq s prog proc data).rpcId := by
        unfold Network.rpcReq
        simp [hlast]
      rw [hnew, hcurrent, hlast]

theorem nfsSend_cases (s : NfsClient) :
    nfsSend s = s ∨ exists prog proc data, nfsSend s = rpcReq s prog proc data := by
  unfold nfsSend
  cases s.nfsState with
  | umountReq =>
      dsimp only
      unfold nfsUmountallReq
      split
      · exact Or.inl rfl
      · exact Or.inr ⟨_, _, _, rfl⟩
  | _ =>
      exact Or.inr ⟨_, _, _, rfl⟩

theorem nfsSend_update (s : NfsClient) :
    nfsSend s = { s with rpcId := (nfsSend s).rpcId, sent := (nfsSend s).sent } := by
  rcases nfsSend_cases s with hnone | ⟨prog, proc, data, hreq⟩
  · rw [hnone]
  · rw [hreq]
    rfl

theorem Numbered.nfsSend {first : BitVec 32} {s : NfsClient} (h : Numbered first s) :
    Numbered first (nfsSend s) := by
  rcases nfsSend_cases s with hnone | ⟨prog, proc, data, hreq⟩
  · rw [hnone]
    exact h
  · rw [hreq]
    exact h.rpcReq prog proc data

theorem nfsSend_length (s : NfsClient) :
    (nfsSend s).sent.length <= s.sent.length + 1 := by
  rcases nfsSend_cases s with hnone | ⟨prog, proc, data, hreq⟩
  · rw [hnone]
    exact Nat.le_succ _
  · rw [hreq]
    unfold rpcReq
    rw [List.length_append, List.length_singleton]

/-- While the file is looked up or read, the last request says so. -/
structure Asked (s : NfsClient) : Prop where
  lookup : s.nfsState = .lookupReq ->
    exists request, s.sent.getLast? = some request ∧ Calls request progNfs nfsLookup
  read : s.nfsState = .readReq ->
    exists request, s.sent.getLast? = some request ∧ Calls request progNfs nfsRead ∧
      request.words.drop 6 = rpcAddCredentials ++ s.filefh ++
        [BitVec.ofInt 32 s.nfsOffset, BitVec.ofInt 32 s.nfsLen, 0#32]

theorem nfsSend_asked (s : NfsClient) : Asked (nfsSend s) := by
  constructor
  · intro hstate
    rw [nfsSend_update] at hstate
    unfold nfsSend
    rw [show s.nfsState = .lookupReq from hstate]
    dsimp only
    unfold nfsLookupReq rpcReq
    exact ⟨_, List.getLast?_concat, rfl, rfl⟩
  · intro hstate
    rw [nfsSend_update] at hstate
    unfold nfsSend
    rw [show s.nfsState = .readReq from hstate]
    dsimp only
    unfold nfsReadReq rpcReq
    exact ⟨_, List.getLast?_concat, ⟨rfl, rfl⟩, rfl⟩

end Nfs

end Network
end Bab750
