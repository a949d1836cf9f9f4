import Bab750.Network.Tftp

/-!
# The NFS client

`net/nfs.c` without direct writes to flash. A packet is sent by handing the words of its payload
to `NetSendUDPPacket`; the handler gets a pointer into the receive buffer.
-/

namespace Bab750
namespace Network

open Foundation

/-!
# State
-/

/-- `NfsState`. -/
inductive NfsPhase where
  | prclookupProgMountReq
  | prclookupProgNfsReq
  | mountReq
  | umountReq
  | lookupReq
  | readReq
  | readlinkReq
deriving DecidableEq, Repr

/-- A datagram with its ports and the words of its payload. -/
structure RpcPacket where
  dest : BitVec 32
  src : BitVec 32
  words : List (BitVec 32)
deriving DecidableEq

structure NfsClient where
  fsMounted : Bool
  rpcId : BitVec 32
  nfsOffset : Int
  nfsLen : Int
  dirfh : List (BitVec 32)
  filefh : List (BitVec 32)
  nfsDownloadState : LoopState
  nfsSrvMountPort : BitVec 32
  nfsSrvNfsPort : BitVec 32
  nfsOurPort : BitVec 32
  nfsTimeoutCount : Nat
  nfsState : NfsPhase
  nfsFilename : List Byte
  nfsPath : List Byte
  loadAddr : BitVec 32
  netBootFileXferSize : BitVec 32
  netState : LoopState
  /-- Calls of `NetStartAgain`. -/
  startedAgain : Nat
  memory : Memory
  sent : List RpcPacket
  output : List Byte

def NfsClient.puts (s : NfsClient) (text : String) : NfsClient :=
  { s with output := s.output ++ ascii text }

def sunrpcPort : BitVec 32 := 111#32

def progPortmap : BitVec 32 := 100000#32

def progNfs : BitVec 32 := 100003#32

def progMount : BitVec 32 := 100005#32

def portmapGetport : BitVec 32 := 3#32

def mountAddentry : BitVec 32 := 1#32

def mountUmountall : BitVec 32 := 4#32

def nfsLookup : BitVec 32 := 4#32

def nfsReadlink : BitVec 32 := 5#32

def nfsRead : BitVec 32 := 6#32

def nfserrIsdir : Int := 21

def nfserrInval : Int := 22

def nfsReadSize : Int := 1024

def nfsRetryCount : Nat := 30

/-!
# Requests
-/

def rpcAddCredentials : List (BitVec 32) :=
  [1#32, 20#32, 0#32, 0#32, 0#32, 0#32, 0#32, 0#32, 0#32]

def stringWords (text : List Byte) : List (BitVec 32) :=
  BitVec.ofNat 32 text.length ::
    (List.range ((text.length + 3) / 4)).map (fun i =>
      bytesWord [text.getD (4 * i) 0#8, text.getD (4 * i + 1) 0#8, text.getD (4 * i + 2) 0#8,
        text.getD (4 * i + 3) 0#8])

def rpcPort (s : NfsClient) (prog : BitVec 32) : BitVec 32 :=
  if prog = progPortmap then sunrpcPort
  else if prog = progMount then s.nfsSrvMountPort
  else s.nfsSrvNfsPort

def rpcReq (s : NfsClient) (prog proc : BitVec 32) (data : List (BitVec 32)) : NfsClient :=
  let id := s.rpcId + 1#32
  { s with
    rpcId := id
    sent := s.sent ++
      [{ dest := rpcPort s prog
         src := s.nfsOurPort
         words := [id, 0#32, 2#32, prog, 2#32, proc] ++ data }] }

def rpcLookupReq (s : NfsClient) (prog ver : BitVec 32) : NfsClient :=
  rpcReq s progPortmap portmapGetport [0#32, 0#32, 0#32, 0#32, prog, ver, 17#32, 0#32]

def nfsMountReq (s : NfsClient) (path : List Byte) : NfsClient :=
  rpcReq s progMount mountAddentry (rpcAddCredentials ++ stringWords path)

def nfsUmountallReq (s : NfsClient) : NfsClient :=
  if s.nfsSrvMountPort = 0xffffffff#32 ∨ s.fsMounted = false then s
  else rpcReq s progMount mountUmountall rpcAddCredentials

def nfsReadlinkReq (s : NfsClient) : NfsClient :=
  rpcReq s progNfs nfsReadlink (rpcAddCredentials ++ s.filefh)

def nfsLookupReq (s : NfsClient) (fname : List Byte) : NfsClient :=
  rpcReq s progNfs nfsLookup (rpcAddCredentials ++ s.dirfh ++ stringWords fname)

def nfsReadReq (s : NfsClient) (offset readlen : Int) : NfsClient :=
  rpcReq s progNfs nfsRead
    (rpcAddCredentials ++ s.filefh ++ [BitVec.ofInt 32 offset, BitVec.ofInt 32 readlen, 0#32])

def nfsSend (s : NfsClient) : NfsClient :=
  match s.nfsState with
  | .prclookupProgMountReq => rpcLookupReq s progMount 1#32
  | .prclookupProgNfsReq => rpcLookupReq s progNfs 2#32
  | .mountReq => nfsMountReq s s.nfsPath
  | .umountReq => nfsUmountallReq s
  | .lookupReq => nfsLookupReq s s.nfsFilename
  | .readReq => nfsReadReq s s.nfsOffset s.nfsLen
  | .readlinkReq => nfsReadlinkReq s

/-!
# Replies
-/

/-- A word of a `struct rpc_t`. The fields of a reply are `id`, `type`, `rstatus`, `verifier`,
`v2`, `astatus` and the array `data`. -/
def rpcWord (pkt : Buffer) (i : Nat) : BitVec 32 :=
  bytesWord [pkt (4 * i), pkt (4 * i + 1), pkt (4 * i + 2), pkt (4 * i + 3)]

/-- `memcpy` of a packet to the stack. -/
def rpcPkt (pkt : Buffer) (len : Nat) (stack : Buffer) : Buffer :=
  fun i => if i < len then pkt i else stack i

def rpcRefused (pkt : Buffer) : Prop :=
  rpcWord pkt 2 ≠ 0#32 ∨ rpcWord pkt 3 ≠ 0#32 ∨ rpcWord pkt 5 ≠ 0#32

instance (pkt : Buffer) : Decidable (rpcRefused pkt) :=
  inferInstanceAs (Decidable (_ ∨ _))

def rpcHandle (pkt : Buffer) : List (BitVec 32) :=
  (List.range 8).map (fun i => rpcWord pkt (7 + i))

def rpcLookupReply (s : NfsClient) (prog : BitVec 32) (pkt : Buffer) : Int × NfsClient :=
  if rpcWord pkt 0 ≠ s.rpcId then (-1, s)
  else if rpcRefused pkt then (-1, s)
  else if prog = progMount then (0, { s with nfsSrvMountPort := rpcWord pkt 6 })
  else if prog = progNfs then (0, { s with nfsSrvNfsPort := rpcWord pkt 6 })
  else (0, s)

def nfsMountReply (s : NfsClient) (pkt : Buffer) : Int × NfsClient :=
  if rpcWord pkt 0 ≠ s.rpcId then (-1, s)
  else if rpcRefused pkt ∨ rpcWord pkt 6 ≠ 0#32 then (-1, s)
  else (0, { s with fsMounted := true, dirfh := rpcHandle pkt })

def nfsUmountallReply (s : NfsClient) (pkt : Buffer) : Int × NfsClient :=
  if rpcWord pkt 0 ≠ s.rpcId then (-1, s)
  else if rpcRefused pkt then (-1, s)
  else (0, { s with fsMounted := false, dirfh := List.replicate 8 0#32 })

def nfsLookupReply (s : NfsClient) (pkt : Buffer) : Int × NfsClient :=
  if rpcWord pkt 0 ≠ s.rpcId then (-1, s)
  else if rpcRefused pkt ∨ rpcWord pkt 6 ≠ 0#32 then (-1, s)
  else (0, { s with filefh := rpcHandle pkt })

def upToNul (text : List Byte) : List Byte := text.takeWhile (fun c => c != 0#8)

def nfsReadlinkReply (s : NfsClient) (pkt : Buffer) : Int × NfsClient :=
  if rpcWord pkt 0 ≠ s.rpcId then (-1, s)
  else if rpcRefused pkt ∨ rpcWord pkt 6 ≠ 0#32 then (-1, s)
  else
    let text := bytesAt pkt 32 (rpcWord pkt 7).toNat
    if pkt 32 ≠ 0x2f#8 then
      (0, { s with nfsPath := upToNul (s.nfsPath ++ ascii "/" ++ text) })
    else (0, { s with nfsPath := upToNul text })

def nfsStoreBlock (s : NfsClient) (src : List Byte) (offset : BitVec 32) : NfsClient :=
  let newsize := offset + BitVec.ofNat 32 src.length
  { s with
    memory := copyMemory s.memory (s.loadAddr + offset) src
    netBootFileXferSize :=
      if s.netBootFileXferSize < newsize then newsize else s.netBootFileXferSize }

/-- The progress marks, with `HASHES_PER_LINE` 65. -/
def nfsMarks (s : NfsClient) : NfsClient :=
  let s :=
    if s.nfsOffset ≠ 0 ∧ s.nfsOffset.tmod (nfsReadSize / 2 * 10 * 65) = 0 then s.puts "\n\t "
    else s
  if s.nfsOffset.tmod (nfsReadSize / 2 * 10) = 0 then s.puts "#" else s

def nfsReadReply (s : NfsClient) (pkt : Buffer) : Int × NfsClient :=
  if rpcWord pkt 0 ≠ s.rpcId then (-1, s)
  else if rpcRefused pkt ∨ rpcWord pkt 6 ≠ 0#32 then
    if rpcWord pkt 2 ≠ 0#32 then (-9999, s)
    else if rpcWord pkt 5 ≠ 0#32 then (-9999, s)
    else ((-(rpcWord pkt 6)).toInt, s)
  else
    ((rpcWord pkt 24).toInt,
      nfsStoreBlock (nfsMarks s) (bytesAt pkt 100 (rpcWord pkt 24).toNat)
        (BitVec.ofInt 32 s.nfsOffset))

/-!
# The handlers
-/

def nfsStartAgain (s : NfsClient) : NfsClient := { s with startedAgain := s.startedAgain + 1 }

def nfsTimeout (s : NfsClient) : NfsClient :=
  let s := { s with nfsTimeoutCount := s.nfsTimeoutCount + 1 }
  if nfsRetryCount < s.nfsTimeoutCount then
    nfsStartAgain (s.puts "\nRetry count exceeded; starting again\n")
  else nfsSend (s.puts "T ")

/-- Behind the last slash of a path that has one. -/
def basename (path : List Byte) : List Byte :=
  (path.reverse.takeWhile (fun c => c != 0x2f#8)).reverse

/-- In front of the last slash of a path that has one. -/
def dirname (path : List Byte) : List Byte :=
  ((path.reverse.dropWhile (fun c => c != 0x2f#8)).drop 1).reverse

def NfsClient.goTo (s : NfsClient) (phase : NfsPhase) : NfsClient :=
  nfsSend { s with nfsState := phase }

/-- `case STATE_READ_REQ` behind `nfs_read_reply`. -/
def nfsReadDone (rlen : Int) (s : NfsClient) : NfsClient :=
  if 0 < rlen then nfsSend { s with nfsOffset := s.nfsOffset + rlen }
  else if rlen = -nfserrIsdir ∨ rlen = -nfserrInval then s.goTo .readlinkReq
  else if rlen = 0 then { s with nfsDownloadState := .success }.goTo .umountReq
  else s.goTo .umountReq

/-- `NfsHandler`; `stack` is what lies where the packet is copied to. -/
def nfsHandler (s : NfsClient) (packet : Buffer) (dest : BitVec 32) (len : Nat)
    (stack : Buffer) : NfsClient :=
  if dest ≠ s.nfsOurPort then s
  else
    let pkt := rpcPkt packet len stack
    match s.nfsState with
    | .prclookupProgMountReq => (rpcLookupReply s progMount pkt).2.goTo .prclookupProgNfsReq
    | .prclookupProgNfsReq => (rpcLookupReply s progNfs pkt).2.goTo .mountReq
    | .mountReq =>
        let result := nfsMountReply s pkt
        if result.1 ≠ 0 then (result.2.puts "*** ERROR: Cannot mount\n").goTo .umountReq
        else result.2.goTo .lookupReq
    | .umountReq =>
        let result := nfsUmountallReply s pkt
        if result.1 ≠ 0 then
          { result.2.puts "*** ERROR: Cannot umount\n" with netState := .fail }
        else
          { result.2.puts "\ndone\n" with netState := result.2.nfsDownloadState }
    | .lookupReq =>
        let result := nfsLookupReply s pkt
        if result.1 ≠ 0 then (result.2.puts "*** ERROR: File lookup fail\n").goTo .umountReq
        else { result.2 with nfsOffset := 0, nfsLen := nfsReadSize }.goTo .readReq
    | .readlinkReq =>
        let result := nfsReadlinkReply s pkt
        if result.1 ≠ 0 then (result.2.puts "*** ERROR: Symlink fail\n").goTo .umountReq
        else
          { result.2 with
            nfsFilename := basename result.2.nfsPath
            nfsPath := dirname result.2.nfsPath }.goTo .mountReq
    | .readReq =>
        -- always copies so many bytes as the header of a reply has
        let result := nfsReadReply s packet
        nfsReadDone result.1 result.2

/-- `NfsStart` for a path and a file name, with the network loop's reset of its state and of the
transferred size; `banner` are the lines about device, server and file. -/
def nfsStart (s : NfsClient) (path filename banner : List Byte) : NfsClient :=
  nfsSend { s with
    nfsDownloadState := .fail
    nfsPath := path
    nfsFilename := filename
    nfsTimeoutCount := 0
    nfsState := .prclookupProgMountReq
    nfsOurPort := 1000#32
    netState := .continue
    netBootFileXferSize := 0#32
    output := s.output ++ banner }

end Network
end Bab750
