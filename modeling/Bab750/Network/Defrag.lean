import Bab750.Foundation.Holes
import Bab750.Foundation.LinkedCells
import Bab750.Network.Send

/-!
# Fragments

`NetDefragment` and `__NetDefragment` of `net/net.c`, which a board with `CONFIG_IP_DEFRAG` puts
the fragments of a datagram together with. What is missing is kept as a list of holes, and the
list is kept inside of the holes: each begins at a multiple of eight bytes. Reads and writes
outside of the packet buffer have no result, and neither has a walk that never ends.
-/

namespace Bab750
namespace Network

open Foundation

def ipFlagsMfrag : BitVec 16 := 0x2000#16

def ipOffs : BitVec 16 := 0x1fff#16

/-- `IP_PKTSIZE`, for the size of `CONFIG_NET_MAXDEFRAG` that is set in `net.c`. -/
def ipPktsize : Nat := 16384 + 100

def ipMaxudp : Nat := ipPktsize - ipHdrSizeNoUdp

structure Hole where
  lastByte : BitVec 16
  nextHole : BitVec 16
  prevHole : BitVec 16
  unused : BitVec 16
deriving Repr, DecidableEq

structure Defrag where
  pktBuff : Buffer
  firstHole : BitVec 16
  totalLen : BitVec 16

def payloadAt (i : Nat) : Nat := ipHdrSizeNoUdp + 8 * i

def Hole.bytes (h : Hole) : List Byte :=
  shortBytes h.lastByte ++ shortBytes h.nextHole ++ shortBytes h.prevHole ++ shortBytes h.unused

def holeAt (buf : Buffer) (i : Nat) : Hole where
  lastByte := shortAt buf (payloadAt i)
  nextHole := shortAt buf (payloadAt i + 2)
  prevHole := shortAt buf (payloadAt i + 4)
  unused := shortAt buf (payloadAt i + 6)

def Defrag.hole (s : Defrag) (i : Nat) : Option Hole :=
  if payloadAt i + 8 ≤ ipPktsize then some (holeAt s.pktBuff i) else none

def Defrag.setHole (s : Defrag) (i : Nat) (h : Hole) : Option Defrag :=
  if payloadAt i + 8 ≤ ipPktsize then
    some { s with pktBuff := copyTo s.pktBuff (payloadAt i) h.bytes }
  else none

def Defrag.change (s : Defrag) (i : Nat) (f : Hole -> Hole) : Option Defrag := do
  let h ← s.hole i
  s.setHole i (f h)

def Defrag.reset (s : Defrag) (ip : Buffer) : Option Defrag := do
  let s ← s.change 0 (fun h =>
    { h with lastByte := 0xffff#16, nextHole := 0#16, prevHole := 0#16 })
  some {
    pktBuff := copyTo s.pktBuff 0 (bytesAt ip 0 ipHdrSizeNoUdp)
    firstHole := 0#16
    totalLen := 0xffff#16 }

/-- The first hole that does not end in front of a byte, if there is one. -/
def Defrag.findHole (s : Defrag) (start : Nat) : Nat -> Nat -> Option (Option Nat)
  | 0, _ => none
  | fuel + 1, i => do
      let h ← s.hole i
      if h.lastByte.toNat < start then
        if h.nextHole = 0#16 then some none else s.findHole start fuel h.nextHole.toNat
      else some (some i)

/-- Take a hole out of the list; the second result is `done`. -/
def Defrag.removeHole (s : Defrag) (h : Hole) : Option (Defrag × Bool) :=
  if h.prevHole = 0#16 ∧ h.nextHole = 0#16 then some (s, true)
  else if h.prevHole = 0#16 then do
    let s ← { s with firstHole := h.nextHole }.change h.nextHole.toNat
      (fun next => { next with prevHole := 0#16 })
    some (s, false)
  else if h.nextHole = 0#16 then do
    let s ← s.change h.prevHole.toNat (fun prev => { prev with nextHole := 0#16 })
    some (s, false)
  else do
    let s ← s.change h.nextHole.toNat (fun next => { next with prevHole := h.prevHole })
    let s ← s.change h.prevHole.toNat (fun prev => { prev with nextHole := h.nextHole })
    some (s, false)

/-- `if (h->next_hole) payload[h->next_hole].prev_hole = x;` -/
def Defrag.linkBack (s : Defrag) (nextHole x : BitVec 16) : Option Defrag :=
  if nextHole = 0#16 then some s
  else s.change nextHole.toNat (fun next => { next with prevHole := x })

/-- `if (h->prev_hole) payload[h->prev_hole].next_hole = x; else first_hole = x;` -/
def Defrag.linkFront (s : Defrag) (prevHole x : BitVec 16) : Option Defrag :=
  if prevHole = 0#16 then some { s with firstHole := x }
  else s.change prevHole.toNat (fun prev => { prev with nextHole := x })

def Defrag.moveHole (s : Defrag) (h : Hole) (newh : Nat) : Option Defrag := do
  let s ← s.setHole newh h
  let h ← s.hole newh
  let s ← s.linkBack h.nextHole (BitVec.ofNat 16 newh)
  let h ← s.hole newh
  s.linkFront h.prevHole (BitVec.ofNat 16 newh)

/-- Let a hole end at a byte, and another one begin behind it with what is left. -/
def Defrag.splitHole (s : Defrag) (i : Nat) (h : Hole) (start newh : Nat) : Option Defrag := do
  let s ← s.setHole newh h
  let s ← s.change i (fun h =>
    { h with lastByte := BitVec.ofNat 16 start, nextHole := BitVec.ofNat 16 newh })
  let s ← s.change newh (fun h => { h with prevHole := BitVec.ofNat 16 i })
  let h ← s.hole newh
  s.linkBack h.nextHole (BitVec.ofNat 16 newh)

/-- The hole list without the bytes of a fragment that overlaps with one of the holes. -/
def Defrag.fixHoles (s : Defrag) (i offset8 len : Nat) : Option (Defrag × Bool) := do
  let h ← s.hole i
  if offset8 ≤ i ∧ h.lastByte.toNat ≤ offset8 * 8 + len then s.removeHole h
  else if h.lastByte.toNat ≤ offset8 * 8 + len then do
    let s ← s.change i (fun h => { h with lastByte := BitVec.ofNat 16 (offset8 * 8) })
    some (s, false)
  else if offset8 ≤ i then do
    let s ← s.moveHole h (offset8 + len / 8)
    some (s, false)
  else do
    let s ← s.splitHole i h (offset8 * 8) (offset8 + len / 8)
    some (s, false)

/-- The end of the datagram, when there are no more fragments behind this one. -/
def Defrag.truncate (s : Defrag) (i stop : Nat) : Option Defrag :=
  { s with totalLen := BitVec.ofNat 16 stop }.change i
    (fun h => { h with lastByte := BitVec.ofNat 16 stop })

/-- `memcpy` into the packet buffer. -/
def Defrag.fill (s : Defrag) (place : Nat) (bytes : List Byte) : Defrag :=
  { s with pktBuff := copyTo s.pktBuff place bytes }

structure Packet where
  buf : Buffer
  len : Nat

def Defrag.finish (s : Defrag) (done : Bool) : Defrag × Option Packet :=
  if done then
    let s := s.fill 2 (shortBytes s.totalLen)
    (s, some ⟨s.pktBuff, s.totalLen.toNat + ipHdrSizeNoUdp⟩)
  else (s, none)

/-- Put the bytes of a fragment into the packet, which is complete when no hole is left. -/
def Defrag.insert (s : Defrag) (ip : Buffer) (offset8 len : Nat) :
    Option (Defrag × Option Packet) := do
  let found ← s.findHole (offset8 * 8) (2 ^ 16) s.firstHole.toNat
  match found with
  | none => some (s, none)
  | some i =>
      if offset8 + (len + 7) / 8 ≤ i then some (s, none)
      else do
        let s ← (if shortAt ip 6 &&& ipFlagsMfrag = 0#16 then s.truncate i (offset8 * 8 + len)
          else some s)
        let (s, done) ← s.fixHoles i offset8 len
        let s := s.fill (payloadAt offset8) (bytesAt ip ipHdrSizeNoUdp len)
        some (s.finish done)

def netDefragmentHoles (s : Defrag) (ip : Buffer) : Option (Defrag × Option Packet) :=
  let offset8 := (shortAt ip 6 &&& ipOffs).toNat
  -- the comparison with `IP_MAXUDP` is one of unsigned numbers
  if offset8 * 8 + (shortAt ip 2).toNat < ipHdrSizeNoUdp then some (s, none)
  -- `memcpy` with a length below zero
  else if (shortAt ip 2).toNat < ipHdrSizeNoUdp then none
  else
    let len := (shortAt ip 2).toNat - ipHdrSizeNoUdp
    if ipMaxudp < offset8 * 8 + len then some (s, none)
    else do
      let s ← (if s.totalLen = 0#16 ∨ shortAt s.pktBuff 4 ≠ shortAt ip 4 then s.reset ip
        else some s)
      s.insert ip offset8 len

def netDefragment (s : Defrag) (ip : Buffer) (len : Nat) : Option (Defrag × Option Packet) :=
  if shortAt ip 6 &&& (ipOffs ||| ipFlagsMfrag) = 0#16 then some (s, some ⟨ip, len⟩)
  else netDefragmentHoles s ip

/-- The results for packets that come in one after the other. -/
def netDefragmentAll (s : Defrag) : List (Buffer × Nat) -> Option (Defrag × List (Option Packet))
  | [] => some (s, [])
  | packet :: packets =>
      (netDefragment s packet.1 packet.2).bind fun first =>
        (netDefragmentAll first.1 packets).map fun rest => (rest.1, first.2 :: rest.2)

end Network
end Bab750
