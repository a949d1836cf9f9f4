import Bab750.Environment.Setenv
import Bab750.Network.Send

/-!
# Answers of a BOOTP server

`BootpHandler` of `net/bootp.c` up to its vendor area, without DHCP and with one name
server: `BootpCheckPkt`, `BootpCopyNetParams`, `BootpVendorProcess`, and
`BootpVendorFieldProcess`.  The memory behind the packet holds anything.  Next to its
result, each function has the list of the bytes that it has read.
-/

namespace Bab750
namespace Network

open Foundation

/-!
# Variables and reads
-/

abbrev CharArray (size : Nat) := { cells : List Byte // cells.length = size }

/-- Copy a text and a NUL to an array that has room for them. -/
def CharArray.put {size : Nat} (array : CharArray size) (text : List Byte)
    (h : text.length < size) : CharArray size :=
  ⟨text ++ 0#8 :: array.val.drop (text.length + 1), by
    rw [List.length_append, List.length_cons, List.length_drop, array.property]
    omega⟩

def CharArray.cleared (size : Nat) : CharArray size :=
  ⟨List.replicate size 0#8, List.length_replicate⟩

def CharArray.isEmpty {size : Nat} (array : CharArray size) : Bool := array.val.head? = some 0#8

structure VendorParams where
  netOurSubnetMask : BitVec 32
  netOurGatewayIP : BitVec 32
  netOurDNSIP : BitVec 32
  netBootFileSize : BitVec 16
  netOurHostName : CharArray 32
  netOurRootPath : CharArray 64
  netOurNISDomain : CharArray 32
  output : List Byte

/-- A read of the packet, or of the value of the option at a place. -/
inductive Read where
  | packet (offset : Nat)
  | value (offset opt size : Nat)
deriving DecidableEq

def valueReads (opt size count : Nat) : List Read :=
  (List.range count).map (fun i => Read.value (opt + 2 + i) opt size)

def Read.offset : Read -> Nat
  | .packet offset => offset
  | .value offset _ _ => offset

/-- The read stays in the payload, and that of a value in the length of its option. -/
def Read.Inside (len : Nat) : Read -> Prop
  | .packet offset => offset < len
  | .value offset opt size => offset < len ∧ offset < opt + 2 + size

/-!
# Vendor fields
-/

def truncateSz (name : List Byte) (maxlen curlen : Nat) : List Byte × Nat :=
  if maxlen <= curlen then
    (ascii "*** WARNING: " ++ name ++ ascii " is too long (" ++ ascii (toString curlen) ++
      ascii " - max: " ++ ascii (toString maxlen) ++ ascii ") - truncated\n", maxlen - 1)
  else ([], curlen)

theorem truncateSz_lt (name : List Byte) {maxlen : Nat} (curlen : Nat) (h : 0 < maxlen) :
    (truncateSz name maxlen curlen).2 < maxlen := by
  unfold truncateSz
  split
  · exact Nat.sub_lt h Nat.one_pos
  · omega

/-- `NetCopyIP` to an address that is not set yet. -/
def copyAddress (mem : Buffer) (opt size : Nat) (address : BitVec 32) :
    BitVec 32 × List Read :=
  if address = 0#32 then (netReadIP mem (opt + 2), valueReads opt size 4) else (address, [])

/-- What a text option does to an array that is still empty, with its warning. -/
def copyText {room : Nat} (mem : Buffer) (opt size : Nat) (name : List Byte)
    (array : CharArray (room + 1)) : CharArray (room + 1) × List Byte × List Read :=
  if array.isEmpty then
    let truncated := truncateSz name (room + 1) size
    (array.put (bytesAt mem (opt + 2) truncated.2) (by
      rw [bytesAt_length]
      exact truncateSz_lt name size (Nat.succ_pos room)), truncated.1,
      valueReads opt size truncated.2)
  else (array, [], [])

def bootFileSize (mem : Buffer) (opt size : Nat) : BitVec 16 × List Read :=
  if size = 2 then (shortAt mem (opt + 2), valueReads opt size 2)
  else if size = 4 then ((netReadIP mem (opt + 2)).setWidth 16, valueReads opt size 4)
  else (0#16, [])

def bootpVendorFieldProcess (mem : Buffer) (ext : Nat) (s : VendorParams) :
    VendorParams × List Read :=
  let size := (mem (ext + 1)).toNat
  let s := { s with netBootFileSize := 0#16 }
  match (mem ext).toNat with
  | 1 =>
      let mask := copyAddress mem ext size s.netOurSubnetMask
      ({ s with netOurSubnetMask := mask.1 }, mask.2)
  | 3 =>
      let gateway := copyAddress mem ext size s.netOurGatewayIP
      ({ s with netOurGatewayIP := gateway.1 }, gateway.2)
  | 6 =>
      let dns := copyAddress mem ext size s.netOurDNSIP
      ({ s with netOurDNSIP := dns.1 }, dns.2)
  | 12 =>
      let name := copyText mem ext size (ascii "Host Name") s.netOurHostName
      ({ s with netOurHostName := name.1, output := s.output ++ name.2.1 }, name.2.2)
  | 13 =>
      let blocks := bootFileSize mem ext size
      ({ s with netBootFileSize := blocks.1 }, blocks.2)
  | 17 =>
      let path := copyText mem ext size (ascii "Root Path") s.netOurRootPath
      ({ s with netOurRootPath := path.1, output := s.output ++ path.2.1 }, path.2.2)
  | 40 =>
      let domain := copyText mem ext size (ascii "NIS Domain Name") s.netOurNISDomain
      ({ s with netOurNISDomain := domain.1, output := s.output ++ domain.2.1 }, domain.2.2)
  | _ => (s, [])

/-- The loop of `BootpVendorProcess`, up to the address `last`. -/
def vendorLoop (mem : Buffer) (last : Nat) :
    Nat -> Nat -> VendorParams -> Option (VendorParams × List Read)
  | 0, _, _ => none
  | fuel + 1, ext, s =>
      if ext < last then
        if mem ext = 0xff#8 then some (s, [.packet ext])
        else if mem ext = 0#8 then
          (vendorLoop mem last fuel (ext + 1) s).map (fun r => (r.1, .packet ext :: r.2))
        else
          let next := ext + (mem (ext + 1)).toNat + 2
          let field := if next <= last then bootpVendorFieldProcess mem ext s else (s, [])
          (vendorLoop mem last fuel next field.1).map
            (fun r => (r.1, .packet ext :: .packet (ext + 1) :: field.2 ++ r.2))
      else some (s, [])

def bootpVendorProcess (mem : Buffer) (ext size : Nat) (s : VendorParams) :
    Option (VendorParams × List Read) :=
  vendorLoop mem (ext + size) (size + 1) ext s

/-!
# The packet
-/

/-- Offsets in `Bootp_t`. -/
def bpYiaddr : Nat := 16
def bpSiaddr : Nat := 20
def bpFile : Nat := 108
def bpVend : Nat := 236

/-- `sizeof(Bootp_t) - OPT_SIZE`. -/
def bootpFixedSize : Nat := 236

def bootpVendorMagic : BitVec 32 := 0x63825363#32

/-- The state of the network code that `BootpHandler` reads and writes. -/
structure BootpState where
  bootpID : BitVec 32
  netOurIP : BitVec 32
  netServerIP : BitVec 32
  netServerEther : List Byte
  bootFile : List Byte
  /-- The values that `bootfile` was set to. -/
  bootfileSet : List (List Byte)
  vendor : VendorParams

def bootpCheckPkt (s : BootpState) (mem : Buffer) (dest src len : Nat) : Int × List Read :=
  if dest ≠ 68 ∨ src ≠ 67 then (-1, [])
  else if len < bootpFixedSize then (-2, [])
  else if mem 0 ≠ 1#8 ∧ mem 0 ≠ 2#8 ∧ mem 0 ≠ 5#8 ∧ mem 0 ≠ 6#8 then (-3, [.packet 0])
  else if mem 1 ≠ 1#8 then (-4, [.packet 0, .packet 1])
  else if mem 2 ≠ 6#8 then (-5, [.packet 0, .packet 1, .packet 2])
  else
    (if netReadIP mem 4 ≠ s.bootpID then -6 else 0,
      [.packet 0, .packet 1, .packet 2, .packet 4, .packet 5, .packet 6, .packet 7])

/-- The reads of `strlen(bp->bp_file)`, followed up to the first byte behind the packet. -/
def nameReads (mem : Buffer) : Nat -> Nat -> List Read
  | 0, _ => []
  | fuel + 1, off =>
      .packet off :: if mem off = 0#8 then [] else nameReads mem fuel (off + 1)

/-- The field of the file name, which `copy_filename` does not leave. -/
def fieldReads : List Read := (List.range 128).map (fun i => Read.packet (bpFile + i))

/-- `BootpCopyNetParams`; `etSrc` is the source address in the frame of the packet. -/
def bootpCopyParams (s : BootpState) (mem : Buffer) (etSrc : List Byte) (len : Nat) :
    BootpState × List Read :=
  let name := (bytesAt mem bpFile 128).takeWhile (fun b => b != 0#8)
  let bootFile := if mem bpFile = 0#8 then s.bootFile else Environment.copyFilename name 128
  ({ s with
      netOurIP := netReadIP mem bpYiaddr
      netServerIP :=
        if netReadIP mem bpSiaddr = 0#32 then s.netServerIP else netReadIP mem bpSiaddr
      netServerEther := etSrc
      bootFile := bootFile
      bootfileSet := if bootFile = [] then s.bootfileSet else s.bootfileSet ++ [bootFile] },
    (List.range 8).map (fun i => Read.packet (bpYiaddr + i)) ++
      nameReads mem (len - bpFile + 1) bpFile ++
      if mem bpFile = 0#8 then [] else fieldReads)

def bootpHandler (s : BootpState) (mem : Buffer) (etSrc : List Byte) (dest src len : Nat) :
    Option (BootpState × List Read) :=
  let check := bootpCheckPkt s mem dest src len
  if check.1 ≠ 0 then some (s, check.2)
  else
    let copied := bootpCopyParams s mem etSrc len
    let reads := check.2 ++ copied.2 ++ (List.range 4).map (fun i => Read.packet (bpVend + i))
    if netReadIP mem bpVend = bootpVendorMagic then
      -- the size is that of the packet, not that of the vendor area
      (bootpVendorProcess mem (bpVend + 4) len copied.1.vendor).map
        (fun r => ({ copied.1 with vendor := r.1 }, reads ++ r.2))
    else some (copied.1, reads)

/-!
# The walk over the options
-/

/-- The tags whose variable takes a value; that of the boot file size always does. -/
def VendorParams.unset (s : VendorParams) : Nat -> Bool
  | 1 => s.netOurSubnetMask = 0#32
  | 3 => s.netOurGatewayIP = 0#32
  | 6 => s.netOurDNSIP = 0#32
  | 12 => s.netOurHostName.isEmpty
  | 13 => true
  | 17 => s.netOurRootPath.isEmpty
  | 40 => s.netOurNISDomain.isEmpty
  | _ => false

/-- How many bytes an option is read for when its variable takes the value. -/
def valueCount (tag size : Nat) : Nat :=
  match tag with
  | 1 => 4
  | 3 => 4
  | 6 => 4
  | 12 => min size 31
  | 13 => if size = 2 ∨ size = 4 then size else 0
  | 17 => min size 63
  | 40 => min size 31
  | _ => 0

/-- Whether a value counts as one for the next option of its tag. -/
def Settles (mem : Buffer) (opt tag size : Nat) : Bool :=
  match tag with
  | 1 => netReadIP mem (opt + 2) ≠ 0#32
  | 3 => netReadIP mem (opt + 2) ≠ 0#32
  | 6 => netReadIP mem (opt + 2) ≠ 0#32
  | 12 => size ≠ 0 ∧ mem (opt + 2) ≠ 0#8
  | 17 => size ≠ 0 ∧ mem (opt + 2) ≠ 0#8
  | 40 => size ≠ 0 ∧ mem (opt + 2) ≠ 0#8
  | _ => false

theorem truncateSz_min (name : List Byte) (room curlen : Nat) :
    (truncateSz name (room + 1) curlen).2 = min curlen room := by
  unfold truncateSz
  split
  · omega
  · omega

theorem isEmpty_put {size : Nat} (array : CharArray size) (text : List Byte)
    (h : text.length < size) :
    (array.put text h).isEmpty = decide (text = [] ∨ text.head? = some 0#8) := by
  unfold CharArray.isEmpty CharArray.put
  cases text with
  | nil =>
      rfl
  | cons b text =>
      simp

theorem copyAddress_reads (mem : Buffer) (opt size : Nat) (address : BitVec 32) :
    (copyAddress mem opt size address).2 =
      if address = 0#32 then valueReads opt size 4 else [] := by
  unfold copyAddress
  split
  · rfl
  · rfl

theorem copyText_reads {room : Nat} (mem : Buffer) (opt size : Nat) (name : List Byte)
    (array : CharArray (room + 1)) :
    (copyText mem opt size name array).2.2 =
      if array.isEmpty then valueReads opt size (min size room) else [] := by
  unfold copyText
  split
  · dsimp only
    rw [truncateSz_min name room size]
  · rfl

theorem copyAddress_unset (mem : Buffer) (opt size : Nat) (address : BitVec 32) :
    decide ((copyAddress mem opt size address).1 = 0#32) =
      (decide (address = 0#32) && !decide (netReadIP mem (opt + 2) ≠ 0#32)) := by
  unfold copyAddress
  split
  case isTrue hunset =>
      simp [hunset]
  case isFalse hset =>
      simp [hset]

theorem copyText_unset {room : Nat} (mem : Buffer) (opt size : Nat) (name : List Byte)
    (h : 0 < room) (array : CharArray (room + 1)) :
    (copyText mem opt size name array).1.isEmpty =
      (array.isEmpty && !decide (size ≠ 0 ∧ mem (opt + 2) ≠ 0#8)) := by
  unfold copyText
  split
  case isTrue hunset =>
      dsimp only
      rw [isEmpty_put, hunset, Bool.true_and, Bool.eq_iff_iff]
      have hcount := truncateSz_min name room size
      rw [decide_eq_true_iff, Bool.not_eq_true', decide_eq_false_iff_not, hcount]
      cases size with
      | zero =>
          simp [bytesAt]
      | succ size =>
          obtain ⟨k, hk⟩ : exists k, min (size + 1) room = k + 1 :=
            ⟨min (size + 1) room - 1, by omega⟩
          rw [hk]
          simp [bytesAt, List.range_succ_eq_map]
  case isFalse hset =>
      simp [hset]

theorem field_reads (mem : Buffer) (ext : Nat) (s : VendorParams) :
    (bootpVendorFieldProcess mem ext s).2 =
      if s.unset (mem ext).toNat then
        valueReads ext (mem (ext + 1)).toNat (valueCount (mem ext).toNat (mem (ext + 1)).toNat)
      else [] := by
  unfold bootpVendorFieldProcess
  dsimp only
  generalize (mem ext).toNat = tag
  generalize (mem (ext + 1)).toNat = size
  split
  · simp [copyAddress_reads, VendorParams.unset, valueCount]
  · simp [copyAddress_reads, VendorParams.unset, valueCount]
  · simp [copyAddress_reads, VendorParams.unset, valueCount]
  · simp [copyText_reads, VendorParams.unset, valueCount]
  · unfold bootFileSize VendorParams.unset valueCount
    by_cases htwo : size = 2
    · simp [htwo]
    · by_cases hfour : size = 4
      · simp [hfour]
      · simp [htwo, hfour, valueReads]
  · simp [copyText_reads, VendorParams.unset, valueCount]
  · simp [copyText_reads, VendorParams.unset, valueCount]
  · rw [show s.unset tag = false by unfold VendorParams.unset; split <;> simp_all]
    rfl

theorem field_unset (mem : Buffer) (ext : Nat) (s : VendorParams) (t : Nat) :
    (bootpVendorFieldProcess mem ext s).1.unset t =
      (s.unset t && !(decide (t = (mem ext).toNat) &&
        Settles mem ext (mem ext).toNat (mem (ext + 1)).toNat)) := by
  unfold bootpVendorFieldProcess
  dsimp only
  generalize (mem ext).toNat = tag
  generalize (mem (ext + 1)).toNat = size
  split
  all_goals
    unfold VendorParams.unset
    split <;> simp [copyAddress_unset, copyText_unset, Settles]

/--
The area from a place on stays in a payload of `len` bytes; `unset` has the tags whose
variable takes a value.  The walk ends at the address `240 + len`.
-/
inductive AreaInside (mem : Buffer) (len : Nat) : (Nat -> Bool) -> Nat -> Prop where
  | finished (unset : Nat -> Bool) (opt : Nat) (hopt : opt < len) (hend : mem opt = 0xff#8) :
      AreaInside mem len unset opt
  | pad (unset : Nat -> Bool) (opt : Nat) (hopt : opt < len) (hpad : mem opt = 0#8)
      (hrest : AreaInside mem len unset (opt + 1)) : AreaInside mem len unset opt
  | option (unset : Nat -> Bool) (opt tag size next : Nat)
      (hopt : opt + 1 < len) (hstart : mem opt ≠ 0#8 ∧ mem opt ≠ 0xff#8)
      (htag : (mem opt).toNat = tag) (hsize : (mem (opt + 1)).toNat = size)
      (hnext : next = opt + size + 2)
      (hvalue : next <= 240 + len -> unset tag = true ->
        valueCount tag size <= size ∧ opt + 2 + valueCount tag size <= len)
      (hrest : next < 240 + len ->
        AreaInside mem len (fun t => unset t && !(decide (t = tag) && Settles mem opt tag size))
          next) : AreaInside mem len unset opt

def StaysInside (len : Nat) (reads : List Read) : Prop :=
  forall read, read ∈ reads -> read.Inside len

theorem staysInside_cons (len : Nat) (read : Read) (reads : List Read) :
    StaysInside len (read :: reads) <-> read.Inside len ∧ StaysInside len reads := by
  unfold StaysInside
  simp

theorem staysInside_append (len : Nat) (first second : List Read) :
    StaysInside len (first ++ second) <->
      StaysInside len first ∧ StaysInside len second := by
  unfold StaysInside
  simp only [List.mem_append, or_imp, forall_and]

theorem staysInside_nil (len : Nat) : StaysInside len [] := by
  intro read hread
  cases hread

theorem staysInside_block (len start count : Nat) :
    StaysInside len ((List.range count).map (fun i => Read.packet (start + i))) <->
      count = 0 ∨ start + count <= len := by
  unfold StaysInside
  simp only [List.mem_map, List.mem_range, forall_exists_index, and_imp,
    forall_apply_eq_imp_iff₂, Read.Inside]
  constructor
  · intro h
    by_cases hzero : count = 0
    · exact Or.inl hzero
    · have hlast := h (count - 1) (by omega)
      right
      omega
  · intro h i hi
    omega

theorem staysInside_value (len opt size count : Nat) (hopt : opt + 1 < len) :
    StaysInside len (valueReads opt size count) <-> count <= size ∧ opt + 2 + count <= len := by
  unfold StaysInside valueReads
  simp only [List.mem_map, List.mem_range, forall_exists_index, and_imp,
    forall_apply_eq_imp_iff₂, Read.Inside]
  constructor
  · intro h
    by_cases hzero : count = 0
    · omega
    · have hlast := h (count - 1) (by omega)
      omega
  · intro h i hi
    omega

theorem field_inside (mem : Buffer) (len opt : Nat) (s : VendorParams) (hopt : opt + 1 < len) :
    StaysInside len (bootpVendorFieldProcess mem opt s).2 <->
      (s.unset (mem opt).toNat = true ->
        valueCount (mem opt).toNat (mem (opt + 1)).toNat <= (mem (opt + 1)).toNat ∧
        opt + 2 + valueCount (mem opt).toNat (mem (opt + 1)).toNat <= len) := by
  rw [field_reads]
  split
  case isTrue hunset =>
      rw [staysInside_value len _ _ _ hopt]
      exact ⟨fun h _ => h, fun h => h hunset⟩
  case isFalse hset =>
      exact ⟨fun _ h => absurd h hset, fun _ => staysInside_nil len⟩

theorem vendorLoop_terminates (mem : Buffer) (last : Nat) :
    forall (fuel ext : Nat) (s : VendorParams), last - ext < fuel ->
      exists result, vendorLoop mem last fuel ext s = some result := by
  intro fuel
  induction fuel with
  | zero =>
      intro ext s h
      exact absurd h (Nat.not_lt_zero _)
  | succ fuel ih =>
      intro ext s h
      unfold vendorLoop
      split
      case isTrue hext =>
          split
          · exact ⟨_, rfl⟩
          · split
            · obtain ⟨result, hresult⟩ := ih (ext + 1) s (by omega)
              exact ⟨_, by rw [hresult]; rfl⟩
            · dsimp only
              obtain ⟨result, hresult⟩ := ih (ext + (mem (ext + 1)).toNat + 2)
                (if ext + (mem (ext + 1)).toNat + 2 <= last then
                  bootpVendorFieldProcess mem ext s else (s, [])).1 (by omega)
              exact ⟨_, by rw [hresult]; rfl⟩
      case isFalse hext =>
          exact ⟨_, rfl⟩

theorem vendorLoop_last (mem : Buffer) {last : Nat} (fuel : Nat) {ext : Nat} (s : VendorParams)
    (h : last <= ext) : vendorLoop mem last (fuel + 1) ext s = some (s, []) := by
  unfold vendorLoop
  rw [if_neg (Nat.not_lt.2 h)]

theorem vendorLoop_inside (mem : Buffer) (len : Nat) :
    forall (fuel ext : Nat) (s : VendorParams) (result : VendorParams × List Read),
      240 + len - ext < fuel -> ext < 240 + len ->
      vendorLoop mem (240 + len) fuel ext s = some result ->
      (StaysInside len result.2 <-> AreaInside mem len s.unset ext) := by
  intro fuel
  induction fuel with
  | zero =>
      intro ext s result h
      exact absurd h (Nat.not_lt_zero _)
  | succ fuel ih =>
      intro ext s result hfuel hext hloop
      unfold vendorLoop at hloop
      rw [if_pos hext] at hloop
      by_cases hff : mem ext = 0xff#8
      · rw [if_pos hff, Option.some.injEq] at hloop
        subst hloop
        rw [staysInside_cons]
        constructor
        · intro h
          exact AreaInside.finished _ _ h.1 hff
        · intro h
          refine ⟨?_, staysInside_nil len⟩
          cases h with
          | finished _ _ hopt _ =>
              exact hopt
          | pad _ _ hopt _ _ =>
              exact hopt
          | option _ _ _ _ _ hopt _ _ _ _ _ _ =>
              exact Nat.lt_of_succ_lt hopt
      rw [if_neg hff] at hloop
      by_cases hpad : mem ext = 0#8
      · rw [if_pos hpad, Option.map_eq_some_iff] at hloop
        obtain ⟨rest, hrest, rfl⟩ := hloop
        rw [staysInside_cons]
        constructor
        · intro h
          have hopt : ext < len := h.1
          exact AreaInside.pad _ _ hopt hpad
            ((ih (ext + 1) s rest (by omega) (by omega) hrest).1 h.2)
        · intro h
          cases h with
          | finished _ _ _ hend =>
              exact absurd hend hff
          | pad _ _ hopt _ harea =>
              exact ⟨hopt, (ih (ext + 1) s rest (by omega) (by omega) hrest).2 harea⟩
          | option _ _ _ _ _ _ hstart _ _ _ _ _ =>
              exact absurd hpad hstart.1
      rw [if_neg hpad] at hloop
      dsimp only at hloop
      rw [Option.map_eq_some_iff] at hloop
      obtain ⟨rest, hrest, rfl⟩ := hloop
      rw [List.cons_append, List.cons_append, staysInside_cons, staysInside_cons,
        staysInside_append]
      generalize hnext : ext + (mem (ext + 1)).toNat + 2 = next at hrest
      -- what the reads behind this option come to
      have hbehind : next < 240 + len -> (StaysInside len rest.2 <-> AreaInside mem len
          (fun t => s.unset t && !(decide (t = (mem ext).toNat) &&
            Settles mem ext (mem ext).toNat (mem (ext + 1)).toNat)) next) := by
        intro hlt
        rw [if_pos (Nat.le_of_lt hlt)] at hrest
        have harea := ih next _ rest (by omega) hlt hrest
        rw [show (bootpVendorFieldProcess mem ext s).1.unset =
          (fun t => s.unset t && !(decide (t = (mem ext).toNat) &&
            Settles mem ext (mem ext).toNat (mem (ext + 1)).toNat)) from
          funext (field_unset mem ext s)] at harea
        exact harea
      constructor
      · rintro ⟨_, hopt, hfield, hreads⟩
        refine AreaInside.option _ ext _ _ next hopt ⟨hpad, hff⟩ rfl rfl hnext.symm ?_ ?_
        · intro hle
          rw [if_pos hle] at hfield
          exact (field_inside mem len ext s hopt).1 hfield
        · intro hlt
          exact (hbehind hlt).1 hreads
      · intro h
        cases h with
        | finished _ _ _ hend =>
            exact absurd hend hff
        | pad _ _ _ hzero _ =>
            exact absurd hzero hpad
        | option _ _ tag size after hopt _ htag hsize hafter hvalue harea =>
            subst htag hsize
            rw [hnext] at hafter
            subst hafter
            refine ⟨Nat.lt_of_succ_lt hopt, hopt, ?_, ?_⟩
            · by_cases hle : after <= 240 + len
              · rw [if_pos hle]
                exact (field_inside mem len ext s hopt).2 (hvalue hle)
              · rw [if_neg hle]
                exact staysInside_nil len
            · by_cases hlt : after < 240 + len
              · exact (hbehind hlt).2 (harea hlt)
              · cases fuel with
                | zero =>
                    omega
                | succ fuel =>
                    rw [vendorLoop_last mem fuel _ (Nat.not_lt.1 hlt), Option.some.injEq] at hrest
                    subst hrest
                    exact staysInside_nil len

/-!
# A reply that is too short
-/

/-- The file name has its NUL in the payload, at the latest behind its field. -/
def NameEnds (mem : Buffer) (len : Nat) : Prop :=
  exists i, bpFile <= i ∧ i < len ∧ mem i = 0#8

theorem nameReads_inside (mem : Buffer) (len : Nat) :
    forall (fuel off : Nat), fuel = len - off + 1 ->
      (StaysInside len (nameReads mem fuel off) <->
        exists i, off <= i ∧ i < len ∧ mem i = 0#8) := by
  intro fuel
  induction fuel with
  | zero =>
      intro off h
      omega
  | succ fuel ih =>
      intro off h
      unfold nameReads
      rw [staysInside_cons]
      by_cases hzero : mem off = 0#8
      · rw [if_pos hzero]
        constructor
        · intro hreads
          exact ⟨off, Nat.le_refl off, hreads.1, hzero⟩
        · rintro ⟨i, hle, hi, _⟩
          exact ⟨Nat.lt_of_le_of_lt hle hi, staysInside_nil len⟩
      · rw [if_neg hzero]
        constructor
        · intro hreads
          have hoff : off < len := hreads.1
          obtain ⟨i, hle, hi, hend⟩ := (ih (off + 1) (by omega)).1 hreads.2
          exact ⟨i, Nat.le_of_succ_le hle, hi, hend⟩
        · rintro ⟨i, hle, hi, hend⟩
          have hne : off ≠ i := by
            intro heq
            exact hzero (heq ▸ hend)
          have hlt : off < i := Nat.lt_of_le_of_ne hle hne
          exact ⟨Nat.lt_trans hlt hi, (ih (off + 1) (by omega)).2 ⟨i, hlt, hi, hend⟩⟩

theorem bootpCheckPkt_passes (s : BootpState) (mem : Buffer) (dest src len : Nat)
    (hcheck : (bootpCheckPkt s mem dest src len).1 = 0) :
    bootpFixedSize <= len ∧ StaysInside len (bootpCheckPkt s mem dest src len).2 := by
  unfold bootpCheckPkt at hcheck ⊢
  split at hcheck
  · exact absurd hcheck (by decide)
  split at hcheck
  · exact absurd hcheck (by decide)
  split at hcheck
  · exact absurd hcheck (by decide)
  split at hcheck
  · exact absurd hcheck (by decide)
  split at hcheck
  · exact absurd hcheck (by decide)
  rename_i hports hlen hop htype hhlen
  rw [if_neg hports, if_neg hlen, if_neg hop, if_neg htype, if_neg hhlen]
  have hfixed : bootpFixedSize <= len := Nat.not_lt.1 hlen
  refine ⟨hfixed, ?_⟩
  unfold bootpFixedSize at hfixed
  unfold StaysInside
  simp only [List.forall_mem_cons, List.not_mem_nil, Read.Inside]
  exact ⟨by omega, by omega, by omega, by omega, by omega, by omega, by omega,
    fun _ h => h.elim⟩

theorem bootpCopyParams_inside (s : BootpState) (mem : Buffer) (etSrc : List Byte) (len : Nat)
    (hfixed : bootpFixedSize <= len) :
    StaysInside len (bootpCopyParams s mem etSrc len).2 <-> NameEnds mem len := by
  unfold bootpFixedSize at hfixed
  unfold bootpCopyParams
  dsimp only
  rw [staysInside_append, staysInside_append,
    nameReads_inside mem len _ bpFile rfl]
  have haddresses : StaysInside len ((List.range 8).map (fun i => Read.packet (bpYiaddr + i))) :=
    (staysInside_block len bpYiaddr 8).2 (Or.inr (by unfold bpYiaddr; omega))
  have hfield : StaysInside len fieldReads :=
    (staysInside_block len bpFile 128).2 (Or.inr (by unfold bpFile; omega))
  constructor
  · intro h
    exact h.1.2
  · intro h
    refine ⟨⟨haddresses, h⟩, ?_⟩
    split
    · exact staysInside_nil len
    · exact hfield

theorem bootp_stays_inside_iff (s : BootpState) (mem : Buffer) (etSrc : List Byte)
    (dest src len : Nat) (hcheck : (bootpCheckPkt s mem dest src len).1 = 0) :
    (forall (name : List Byte) (maxlen curlen : Nat), 0 < maxlen ->
      (truncateSz name maxlen curlen).2 < maxlen) ∧
    exists result, bootpHandler s mem etSrc dest src len = some result ∧
      (StaysInside len result.2 <->
        NameEnds mem len ∧ bpVend + 4 <= len ∧
          (netReadIP mem bpVend = bootpVendorMagic ->
            AreaInside mem len s.vendor.unset (bpVend + 4))) := by
  refine ⟨fun name maxlen curlen h => truncateSz_lt name curlen h, ?_⟩
  obtain ⟨hfixed, hchecked⟩ := bootpCheckPkt_passes s mem dest src len hcheck
  have hcopied := bootpCopyParams_inside s mem etSrc len hfixed
  have hmagic := staysInside_block len bpVend 4
  unfold bootpHandler
  dsimp only
  rw [if_neg (not_not.2 hcheck)]
  by_cases hvendor : netReadIP mem bpVend = bootpVendorMagic
  · rw [if_pos hvendor]
    obtain ⟨walked, hwalked⟩ := vendorLoop_terminates mem (bpVend + 4 + len) (len + 1)
      (bpVend + 4) s.vendor (by omega)
    have hparams : (bootpCopyParams s mem etSrc len).1.vendor = s.vendor := rfl
    refine ⟨_, by rw [hparams, bootpVendorProcess, hwalked]; rfl, ?_⟩
    rw [staysInside_append, staysInside_append, staysInside_append, hcopied, hmagic]
    constructor
    · rintro ⟨⟨⟨_, hname⟩, hlen⟩, hreads⟩
      have hlen : bpVend + 4 <= len := hlen.resolve_left (by decide)
      refine ⟨hname, hlen, fun _ => ?_⟩
      unfold bpVend at hlen hwalked ⊢
      exact (vendorLoop_inside mem len (len + 1) 240 s.vendor walked (by omega) (by omega)
        hwalked).1 hreads
    · rintro ⟨hname, hlen, harea⟩
      refine ⟨⟨⟨hchecked, hname⟩, Or.inr hlen⟩, ?_⟩
      have harea := harea hvendor
      unfold bpVend at hlen hwalked harea
      exact (vendorLoop_inside mem len (len + 1) 240 s.vendor walked (by omega) (by omega)
        hwalked).2 harea
  · rw [if_neg hvendor]
    refine ⟨_, rfl, ?_⟩
    rw [staysInside_append, staysInside_append, hcopied, hmagic]
    constructor
    · rintro ⟨⟨_, hname⟩, hlen⟩
      exact ⟨hname, hlen.resolve_left (by decide), fun h => absurd h hvendor⟩
    · rintro ⟨hname, hlen, _⟩
      exact ⟨⟨hchecked, hname⟩, Or.inr hlen⟩

def sampleVendor : VendorParams where
  netOurSubnetMask := 0#32
  netOurGatewayIP := 0#32
  netOurDNSIP := 0#32
  netBootFileSize := 0#16
  netOurHostName := CharArray.cleared 32
  netOurRootPath := CharArray.cleared 64
  netOurNISDomain := CharArray.cleared 32
  output := []

def sampleBootp : BootpState where
  bootpID := 7#32
  netOurIP := 0#32
  netServerIP := 0#32
  netServerEther := []
  bootFile := []
  bootfileSet := []
  vendor := sampleVendor

/-- The fixed part of a reply, the magic, and some options; zeros fill the packet. -/
def sampleReplyPacket (options : List Byte) : Buffer := fun i =>
  if i < 3 then [2#8, 1#8, 6#8].getD i 0#8
  else if i = 7 then 7#8
  else if i < 236 then 0#8
  else if i < 240 then [0x63#8, 0x82#8, 0x53#8, 0x63#8].getD (i - 236) 0#8
  else options.getD (i - 240) 0#8

/-- A mask and a host name. -/
theorem bootp_stays_inside_iff_complete :
    exists result,
      bootpHandler sampleBootp (sampleReplyPacket
        [1#8, 4#8, 255#8, 255#8, 255#8, 0#8, 12#8, 2#8, 97#8, 98#8, 255#8]) [] 68 67 300 =
        some result ∧ StaysInside 300 result.2 := by
  obtain ⟨_, result, hresult, hinside⟩ := bootp_stays_inside_iff sampleBootp (sampleReplyPacket
    [1#8, 4#8, 255#8, 255#8, 255#8, 0#8, 12#8, 2#8, 97#8, 98#8, 255#8]) [] 68 67 300
    (by decide)
  refine ⟨result, hresult, hinside.2 ⟨⟨108, by decide, by decide, by decide⟩, by decide, ?_⟩⟩
  intro _
  refine AreaInside.option _ 240 1 4 246 (by decide) (by decide) (by decide) (by decide)
    (by decide) (fun _ _ => by decide) (fun _ => ?_)
  refine AreaInside.option _ 246 12 2 250 (by decide) (by decide) (by decide) (by decide)
    (by decide) (fun _ _ => by decide) (fun _ => ?_)
  exact AreaInside.finished _ 250 (by decide) (by decide)

/-- A reply with an empty vendor area. -/
theorem bootp_reads_behind :
    (bootpCheckPkt sampleBootp (sampleReplyPacket []) 68 67 300).1 = 0 ∧
      exists result,
        bootpHandler sampleBootp (sampleReplyPacket []) [] 68 67 300 = some result ∧
          ¬ StaysInside 300 result.2 := by
  refine ⟨by decide, ?_⟩
  have hread : (bootpHandler sampleBootp (sampleReplyPacket []) [] 68 67 300).map
      (fun r => r.2.contains (Read.packet 300)) = some true := by decide +kernel
  rw [Option.map_eq_some_iff] at hread
  obtain ⟨result, hresult, hread⟩ := hread
  refine ⟨result, hresult, ?_⟩
  intro hinside
  have houtside := hinside (Read.packet 300) (List.contains_iff_mem.1 hread)
  exact Nat.lt_irrefl 300 houtside

end Network
end Bab750
