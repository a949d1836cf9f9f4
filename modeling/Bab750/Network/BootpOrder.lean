import Bab750.Network.Bootp
import Mathlib.Data.List.ReduceOption

/-!
# The order of BOOTP options

Vendor areas that have the same options in another order, with pads between them, and
what `BootpVendorProcess` leaves in the seven variables.
-/

namespace Bab750
namespace Network

open Foundation

/-!
# Options and areas
-/

/-- An option whose tag is neither a pad nor the end. -/
structure VendorOption where
  tag : Byte
  value : List Byte
  htag : tag ≠ 0#8 ∧ tag ≠ 0xff#8
  hvalue : value.length < 256

namespace VendorOption

def size (option : VendorOption) : Nat := option.value.length

def bytes (option : VendorOption) : List Byte :=
  option.tag :: BitVec.ofNat 8 option.size :: option.value

def buffer (option : VendorOption) : Buffer := fun i => option.bytes.getD i 0#8

/-- What an option does to the variables when nothing is read behind it. -/
def apply (s : VendorParams) (option : VendorOption) : VendorParams :=
  (bootpVendorFieldProcess option.buffer 0 s).1

def blocks (option : VendorOption) : BitVec 16 := (bootFileSize option.buffer 0 option.size).1

def ShortAddress (option : VendorOption) : Prop :=
  (option.tag = 1#8 ∨ option.tag = 3#8 ∨ option.tag = 6#8) ∧ option.size < 4

end VendorOption

abbrev Layout := List (Option VendorOption)

namespace Layout

def options (layout : Layout) : List VendorOption := layout.reduceOption

def bytes (layout : Layout) : List Byte :=
  layout.flatMap (fun item => item.elim [0#8] VendorOption.bytes)

end Layout

def Holds (mem : Buffer) (ext : Nat) (bytes : List Byte) : Prop :=
  forall i (h : i < bytes.length), mem (ext + i) = bytes[i]

/-- A layout in memory, up to its size or to an end option. -/
structure VendorArea (layout : Layout) where
  mem : Buffer
  ext : Nat
  size : Nat
  holds : Holds mem ext layout.bytes
  ended : size = layout.bytes.length ∨
    (layout.bytes.length < size ∧ mem (ext + layout.bytes.length) = 0xff#8)

def VendorParams.values (s : VendorParams) :=
  (s.netOurSubnetMask, s.netOurGatewayIP, s.netOurDNSIP, s.netBootFileSize,
    s.netOurHostName, s.netOurRootPath, s.netOurNISDomain)

def VendorArea.values {layout : Layout} (area : VendorArea layout) (s : VendorParams) :=
  (bootpVendorProcess area.mem area.ext area.size s).map (fun r => r.1.values)

def SameBehind {first second : Layout} (a : VendorArea first) (b : VendorArea second) : Prop :=
  forall i, a.mem (a.ext + first.bytes.length + i) = b.mem (b.ext + second.bytes.length + i)

def OrderFree (s : VendorParams) (options : List VendorOption) : Prop :=
  forall (first second : Layout) (a : VendorArea first) (b : VendorArea second),
    first.options.Perm options -> second.options.Perm options -> SameBehind a b ->
      a.values s = b.values s

/-!
# The walk over a layout
-/

theorem holds_append {mem : Buffer} {ext : Nat} {first second : List Byte} :
    Holds mem ext (first ++ second) <->
      Holds mem ext first ∧ Holds mem (ext + first.length) second := by
  unfold Holds
  constructor
  · intro h
    constructor
    · intro i hi
      rw [h i (by rw [List.length_append]; omega), List.getElem_append_left hi]
    · intro i hi
      rw [Nat.add_assoc, h (first.length + i) (by rw [List.length_append]; omega),
        List.getElem_append_right (Nat.le_add_right _ _)]
      simp
  · rintro ⟨hfirst, hsecond⟩ i hi
    by_cases hlt : i < first.length
    · rw [hfirst i hlt, List.getElem_append_left hlt]
    · have hle : first.length <= i := Nat.not_lt.1 hlt
      rw [List.getElem_append_right hle, ← hsecond, Nat.add_assoc, Nat.add_sub_cancel' hle]

/-- The fields of a layout in memory, one after the other. -/
def walk (mem : Buffer) : Nat -> Layout -> VendorParams -> VendorParams
  | _, [], s => s
  | ext, none :: layout, s => walk mem (ext + 1) layout s
  | ext, some option :: layout, s =>
      walk mem (ext + option.size + 2) layout (bootpVendorFieldProcess mem ext s).1

@[simp] theorem VendorOption.length_bytes (option : VendorOption) :
    option.bytes.length = option.size + 2 := rfl

theorem Layout.bytes_none (layout : Layout) : Layout.bytes (none :: layout) =
    [0#8] ++ layout.bytes := rfl

theorem Layout.bytes_some (option : VendorOption) (layout : Layout) :
    Layout.bytes (some option :: layout) = option.bytes ++ layout.bytes := rfl

theorem Layout.bytes_append (first second : Layout) :
    Layout.bytes (first ++ second) = first.bytes ++ second.bytes := by
  unfold Layout.bytes
  exact List.flatMap_append

theorem holds_header {mem : Buffer} {ext : Nat} {option : VendorOption}
    (h : Holds mem ext option.bytes) :
    mem ext = option.tag ∧ (mem (ext + 1)).toNat = option.size := by
  constructor
  · exact h 0 (Nat.zero_lt_succ _)
  · rw [h 1 (by simp)]
    unfold VendorOption.bytes VendorOption.size
    simp [Nat.mod_eq_of_lt option.hvalue]

theorem vendorLoop_walk (mem : Buffer) (last : Nat) (layout : Layout) :
    forall (fuel ext : Nat) (s : VendorParams), last - ext < fuel ->
      Holds mem ext layout.bytes -> ext + layout.bytes.length <= last ->
      (ext + layout.bytes.length < last -> mem (ext + layout.bytes.length) = 0xff#8) ->
      (vendorLoop mem last fuel ext s).map Prod.fst = some (walk mem ext layout s) := by
  induction layout with
  | nil =>
      intro fuel ext s hfuel _ hle hend
      obtain ⟨fuel, rfl⟩ := Nat.exists_eq_succ_of_ne_zero (Nat.ne_zero_of_lt hfuel)
      have hend : ext < last -> mem ext = 0xff#8 := hend
      unfold vendorLoop
      by_cases hlt : ext < last
      · rw [if_pos hlt, if_pos (hend hlt)]
        rfl
      · rw [if_neg hlt]
        rfl
  | cons item layout ih =>
      intro fuel ext s hfuel hholds hle hend
      obtain ⟨fuel, rfl⟩ := Nat.exists_eq_succ_of_ne_zero (Nat.ne_zero_of_lt hfuel)
      cases item with
      | none =>
          rw [Layout.bytes_none] at hholds hle hend
          rw [List.length_append, List.length_singleton, ← Nat.add_assoc] at hle hend
          obtain ⟨hpad, hholds⟩ := holds_append.1 hholds
          have hzero : mem ext = 0#8 := hpad 0 Nat.one_pos
          unfold vendorLoop
          rw [if_pos (by omega), hzero, if_neg (by decide), if_pos rfl, Option.map_map]
          exact ih fuel (ext + 1) s (by omega) hholds hle hend
      | some option =>
          rw [Layout.bytes_some] at hholds hle hend
          rw [List.length_append, VendorOption.length_bytes, ← Nat.add_assoc] at hle hend
          obtain ⟨hoption, hholds⟩ := holds_append.1 hholds
          obtain ⟨htag, hsize⟩ := holds_header hoption
          rw [VendorOption.length_bytes] at hholds
          rw [← Nat.add_assoc] at hholds hle hend
          unfold vendorLoop
          dsimp only
          rw [if_pos (by omega), htag, if_neg option.htag.2, if_neg option.htag.1, hsize,
            if_pos (by omega), Option.map_map]
          exact ih fuel (ext + option.size + 2) _ (by omega) hholds hle hend

theorem VendorArea.values_walk {layout : Layout} (area : VendorArea layout) (s : VendorParams) :
    area.values s = some (walk area.mem area.ext layout s).values := by
  have hloop := vendorLoop_walk area.mem (area.ext + area.size) layout (area.size + 1) area.ext s
    (by omega) area.holds (by have := area.ended; omega) (by
      intro hlt
      exact (area.ended.resolve_left (by omega)).2)
  obtain ⟨result, hresult, hwalk⟩ := Option.map_eq_some_iff.1 hloop
  unfold VendorArea.values bootpVendorProcess
  rw [hresult, ← hwalk]
  rfl

theorem walk_append (mem : Buffer) (first second : Layout) :
    forall (ext : Nat) (s : VendorParams), walk mem ext (first ++ second) s =
      walk mem (ext + (Layout.bytes first).length) second (walk mem ext first s) := by
  induction first with
  | nil =>
      intro ext s
      rfl
  | cons item first ih =>
      intro ext s
      cases item with
      | none =>
          rw [Layout.bytes_none, List.length_append, List.length_singleton, ← Nat.add_assoc]
          exact ih (ext + 1) s
      | some option =>
          rw [Layout.bytes_some, List.length_append, VendorOption.length_bytes, ← Nat.add_assoc,
            ← Nat.add_assoc]
          exact ih (ext + option.size + 2) _

/-!
# Fields on their own
-/

theorem netReadIP_congr {mem mem' : Buffer} {i i' : Nat}
    (h : forall k, k < 4 -> mem (i + k) = mem' (i' + k)) : netReadIP mem i = netReadIP mem' i' := by
  have hzero := h 0 (by decide)
  have hone := h 1 (by decide)
  have htwo := h 2 (by decide)
  have hthree := h 3 (by decide)
  unfold netReadIP
  rw [Nat.add_zero, Nat.add_zero] at hzero
  rw [hzero, hone, htwo, hthree]

theorem copyAddress_congr {mem mem' : Buffer} {opt opt' size : Nat} {address : BitVec 32}
    (h : address = 0#32 -> forall k, k < 4 -> mem (opt + 2 + k) = mem' (opt' + 2 + k)) :
    (copyAddress mem opt size address).1 = (copyAddress mem' opt' size address).1 := by
  unfold copyAddress
  split
  case isTrue hunset =>
      exact netReadIP_congr (h hunset)
  case isFalse hset =>
      rfl

theorem copyText_congr {room : Nat} {mem mem' : Buffer} {opt opt' size : Nat}
    (name : List Byte) (array : CharArray (room + 1))
    (h : forall k, k < size -> mem (opt + 2 + k) = mem' (opt' + 2 + k)) :
    (copyText mem opt size name array).1 = (copyText mem' opt' size name array).1 ∧
      (copyText mem opt size name array).2.1 = (copyText mem' opt' size name array).2.1 := by
  unfold copyText
  split
  case isTrue hunset =>
      dsimp only
      have hcount := truncateSz_min name room size
      have htext : bytesAt mem (opt + 2) (truncateSz name (room + 1) size).2 =
          bytesAt mem' (opt' + 2) (truncateSz name (room + 1) size).2 := by
        apply bytesAt_congr
        intro k hk
        exact h k (by omega)
      simp only [htext, and_self]
  case isFalse hset =>
      exact ⟨rfl, rfl⟩

theorem bootFileSize_congr {mem mem' : Buffer} {opt opt' size : Nat}
    (h : forall k, k < size -> mem (opt + 2 + k) = mem' (opt' + 2 + k)) :
    (bootFileSize mem opt size).1 = (bootFileSize mem' opt' size).1 := by
  unfold bootFileSize
  split
  case isTrue htwo =>
      have hzero := h 0 (by omega)
      have hone := h 1 (by omega)
      rw [Nat.add_zero, Nat.add_zero] at hzero
      unfold shortAt
      rw [hzero, hone]
  case isFalse htwo =>
      split
      case isTrue hfour =>
          dsimp only
          rw [netReadIP_congr (fun k hk => h k (by omega))]
      case isFalse hfour =>
          rfl

theorem toNat_eq_iff (option : VendorOption) (tag : Nat) (h : tag < 256) :
    option.tag.toNat = tag <-> option.tag = BitVec.ofNat 8 tag := by
  constructor
  · intro heq
    rw [← heq, BitVec.ofNat_toNat, BitVec.setWidth_eq]
  · intro heq
    rw [heq, BitVec.toNat_ofNat, Nat.mod_eq_of_lt h]

theorem holds_buffer (option : VendorOption) : Holds option.buffer 0 option.bytes := by
  intro i hi
  unfold VendorOption.buffer
  rw [Nat.zero_add, List.getD_eq_getElem?_getD, List.getElem?_eq_getElem hi]
  rfl

theorem holds_value {mem : Buffer} {ext : Nat} {option : VendorOption}
    (hholds : Holds mem ext option.bytes) :
    forall k, k < option.size -> mem (ext + 2 + k) = option.buffer (0 + 2 + k) := by
  intro k hk
  have hlt : 2 + k < option.bytes.length := by
    rw [VendorOption.length_bytes]
    omega
  rw [Nat.add_assoc, Nat.add_assoc, hholds (2 + k) hlt, holds_buffer option (2 + k) hlt]

/-- A field depends on the option only, unless it copies an address from a shorter one. -/
theorem field_apply {mem : Buffer} {ext : Nat} {option : VendorOption}
    (hholds : Holds mem ext option.bytes) (s : VendorParams)
    (hshort : option.ShortAddress -> s.unset option.tag.toNat = false) :
    (bootpVendorFieldProcess mem ext s).1 = option.apply s := by
  have hvalue := holds_value hholds
  have hlong : forall address : BitVec 32,
      (address = 0#32 -> s.unset option.tag.toNat = true) ->
      (option.tag = 1#8 ∨ option.tag = 3#8 ∨ option.tag = 6#8) -> address = 0#32 ->
        forall k, k < 4 -> mem (ext + 2 + k) = option.buffer (0 + 2 + k) := by
    intro address hunset htag haddress k hk
    by_cases hsize : option.size < 4
    · rw [hunset haddress] at hshort
      exact absurd (hshort ⟨htag, hsize⟩) (by decide)
    · exact hvalue k (by omega)
  obtain ⟨htag, hsize⟩ := holds_header hholds
  obtain ⟨htag', hsize'⟩ := holds_header (holds_buffer option)
  unfold VendorOption.apply bootpVendorFieldProcess
  dsimp only
  rw [htag, htag', hsize, hsize']
  generalize hnat : option.tag.toNat = tag at hlong
  have hbyte : option.tag = BitVec.ofNat 8 tag := by rw [← hnat, BitVec.ofNat_toNat, BitVec.setWidth_eq]
  split
  · rw [copyAddress_congr (hlong _ (by intro h; simp [VendorParams.unset, h]) (Or.inl hbyte))]
  · rw [copyAddress_congr (hlong _ (by intro h; simp [VendorParams.unset, h])
      (Or.inr (Or.inl hbyte)))]
  · rw [copyAddress_congr (hlong _ (by intro h; simp [VendorParams.unset, h])
      (Or.inr (Or.inr hbyte)))]
  · obtain ⟨htext, hwarning⟩ := copyText_congr (ascii "Host Name")
      s.netOurHostName hvalue
    rw [htext, hwarning]
  · rw [bootFileSize_congr hvalue]
  · obtain ⟨htext, hwarning⟩ := copyText_congr (ascii "Root Path")
      s.netOurRootPath hvalue
    rw [htext, hwarning]
  · obtain ⟨htext, hwarning⟩ := copyText_congr (ascii "NIS Domain Name")
      s.netOurNISDomain hvalue
    rw [htext, hwarning]
  · rfl

theorem unset_field {mem : Buffer} {ext : Nat} {s : VendorParams} {tag : Nat}
    (h : s.unset tag = false) : (bootpVendorFieldProcess mem ext s).1.unset tag = false := by
  rw [field_unset, h, Bool.false_and]

theorem walk_apply (mem : Buffer) (layout : Layout) :
    forall (ext : Nat) (s : VendorParams), Holds mem ext layout.bytes ->
      (forall option, option ∈ layout.options -> option.ShortAddress ->
        s.unset option.tag.toNat = false) ->
      walk mem ext layout s = layout.options.foldl VendorOption.apply s := by
  induction layout with
  | nil =>
      intro ext s _ _
      rfl
  | cons item layout ih =>
      intro ext s hholds hshort
      cases item with
      | none =>
          rw [Layout.bytes_none] at hholds
          exact ih (ext + 1) s (holds_append.1 hholds).2 hshort
      | some option =>
          rw [Layout.bytes_some] at hholds
          obtain ⟨hoption, hholds⟩ := holds_append.1 hholds
          have hfield := field_apply hoption s (hshort option List.mem_cons_self)
          have hrest := ih (ext + option.size + 2) (bootpVendorFieldProcess mem ext s).1 hholds
            (fun other hother h =>
              unset_field (hshort other (List.mem_cons_of_mem option hother) h))
          rw [hfield] at hrest
          unfold walk
          rw [hfield]
          exact hrest

/-!
# The six variables that keep their first value
-/

/-- The state without the boot file size and the warnings. -/
def VendorParams.settings (s : VendorParams) : VendorParams :=
  { s with netBootFileSize := 0#16, output := [] }

theorem values_eq_iff (s t : VendorParams) :
    s.values = t.values <->
      s.settings = t.settings ∧ s.netBootFileSize = t.netBootFileSize := by
  cases s
  cases t
  unfold VendorParams.values VendorParams.settings
  simp only [Prod.mk.injEq, VendorParams.mk.injEq, and_true, true_and]
  tauto

theorem field_values (mem : Buffer) (ext : Nat) (s : VendorParams) :
    (bootpVendorFieldProcess mem ext s).1 =
      { netOurSubnetMask :=
          if (mem ext).toNat = 1 then
            (copyAddress mem ext (mem (ext + 1)).toNat s.netOurSubnetMask).1
          else s.netOurSubnetMask
        netOurGatewayIP :=
          if (mem ext).toNat = 3 then
            (copyAddress mem ext (mem (ext + 1)).toNat s.netOurGatewayIP).1
          else s.netOurGatewayIP
        netOurDNSIP :=
          if (mem ext).toNat = 6 then
            (copyAddress mem ext (mem (ext + 1)).toNat s.netOurDNSIP).1
          else s.netOurDNSIP
        netBootFileSize :=
          if (mem ext).toNat = 13 then (bootFileSize mem ext (mem (ext + 1)).toNat).1
          else 0#16
        netOurHostName :=
          if (mem ext).toNat = 12 then
            (copyText mem ext (mem (ext + 1)).toNat (ascii "Host Name") s.netOurHostName).1
          else s.netOurHostName
        netOurRootPath :=
          if (mem ext).toNat = 17 then
            (copyText mem ext (mem (ext + 1)).toNat (ascii "Root Path") s.netOurRootPath).1
          else s.netOurRootPath
        netOurNISDomain :=
          if (mem ext).toNat = 40 then
            (copyText mem ext (mem (ext + 1)).toNat (ascii "NIS Domain Name")
              s.netOurNISDomain).1
          else s.netOurNISDomain
        output := (bootpVendorFieldProcess mem ext s).1.output } := by
  unfold bootpVendorFieldProcess
  dsimp only
  split <;> simp_all

theorem field_mask (mem : Buffer) (ext : Nat) (s : VendorParams) :
    (bootpVendorFieldProcess mem ext s).1.netOurSubnetMask =
      if (mem ext).toNat = 1 then
        (copyAddress mem ext (mem (ext + 1)).toNat s.netOurSubnetMask).1
      else s.netOurSubnetMask :=
  congrArg VendorParams.netOurSubnetMask (field_values mem ext s)

theorem field_gateway (mem : Buffer) (ext : Nat) (s : VendorParams) :
    (bootpVendorFieldProcess mem ext s).1.netOurGatewayIP =
      if (mem ext).toNat = 3 then
        (copyAddress mem ext (mem (ext + 1)).toNat s.netOurGatewayIP).1
      else s.netOurGatewayIP :=
  congrArg VendorParams.netOurGatewayIP (field_values mem ext s)

theorem field_dns (mem : Buffer) (ext : Nat) (s : VendorParams) :
    (bootpVendorFieldProcess mem ext s).1.netOurDNSIP =
      if (mem ext).toNat = 6 then
        (copyAddress mem ext (mem (ext + 1)).toNat s.netOurDNSIP).1
      else s.netOurDNSIP :=
  congrArg VendorParams.netOurDNSIP (field_values mem ext s)

theorem field_hostName (mem : Buffer) (ext : Nat) (s : VendorParams) :
    (bootpVendorFieldProcess mem ext s).1.netOurHostName =
      if (mem ext).toNat = 12 then
        (copyText mem ext (mem (ext + 1)).toNat (ascii "Host Name") s.netOurHostName).1
      else s.netOurHostName :=
  congrArg VendorParams.netOurHostName (field_values mem ext s)

theorem field_rootPath (mem : Buffer) (ext : Nat) (s : VendorParams) :
    (bootpVendorFieldProcess mem ext s).1.netOurRootPath =
      if (mem ext).toNat = 17 then
        (copyText mem ext (mem (ext + 1)).toNat (ascii "Root Path") s.netOurRootPath).1
      else s.netOurRootPath :=
  congrArg VendorParams.netOurRootPath (field_values mem ext s)

theorem field_nisDomain (mem : Buffer) (ext : Nat) (s : VendorParams) :
    (bootpVendorFieldProcess mem ext s).1.netOurNISDomain =
      if (mem ext).toNat = 40 then
        (copyText mem ext (mem (ext + 1)).toNat (ascii "NIS Domain Name") s.netOurNISDomain).1
      else s.netOurNISDomain :=
  congrArg VendorParams.netOurNISDomain (field_values mem ext s)

theorem field_bootFileSize (mem : Buffer) (ext : Nat) (s : VendorParams) :
    (bootpVendorFieldProcess mem ext s).1.netBootFileSize =
      if (mem ext).toNat = 13 then (bootFileSize mem ext (mem (ext + 1)).toNat).1
      else 0#16 :=
  congrArg VendorParams.netBootFileSize (field_values mem ext s)

theorem settings_eq_iff (s t : VendorParams) :
    s.settings = t.settings <->
      s.netOurSubnetMask = t.netOurSubnetMask ∧ s.netOurGatewayIP = t.netOurGatewayIP ∧
        s.netOurDNSIP = t.netOurDNSIP ∧ s.netOurHostName = t.netOurHostName ∧
        s.netOurRootPath = t.netOurRootPath ∧ s.netOurNISDomain = t.netOurNISDomain := by
  cases s
  cases t
  unfold VendorParams.settings
  simp only [VendorParams.mk.injEq, and_true, true_and]

def VendorOption.settle (s : VendorParams) (option : VendorOption) : VendorParams :=
  (option.apply s).settings

theorem settle_settings (s : VendorParams) (option : VendorOption) :
    option.settle s.settings = option.settle s := by
  unfold VendorOption.settle VendorOption.apply
  rw [settings_eq_iff]
  simp only [field_mask, field_gateway, field_dns, field_hostName, field_rootPath,
    field_nisDomain]
  exact ⟨rfl, rfl, rfl, rfl, rfl, rfl⟩

theorem slot_comm {α : Type} {first second : Nat} (h : first ≠ second) (slot : Nat)
    (f g : α -> α) (x : α) :
    (if second = slot then g (if first = slot then f x else x)
      else if first = slot then f x else x) =
      if first = slot then f (if second = slot then g x else x)
      else if second = slot then g x else x := by
  by_cases hfirst : first = slot
  · have hsecond : second ≠ slot := fun heq => h (hfirst.trans heq.symm)
    simp only [if_pos hfirst, if_neg hsecond]
  · simp only [if_neg hfirst]

theorem settle_comm (s : VendorParams) {first second : VendorOption}
    (h : first.tag ≠ second.tag) :
    second.settle (first.settle s) = first.settle (second.settle s) := by
  have hfirst : first.buffer 0 = first.tag := rfl
  have hsecond : second.buffer 0 = second.tag := rfl
  have htags : first.tag.toNat ≠ second.tag.toNat := fun heq => h (BitVec.eq_of_toNat_eq heq)
  show second.settle (first.apply s).settings = first.settle (second.apply s).settings
  rw [settle_settings, settle_settings]
  unfold VendorOption.settle VendorOption.apply
  rw [settings_eq_iff]
  simp only [field_mask, field_gateway, field_dns, field_hostName, field_rootPath,
    field_nisDomain, hfirst, hsecond]
  exact ⟨slot_comm htags 1 (fun x => (copyAddress first.buffer 0 _ x).1)
      (fun x => (copyAddress second.buffer 0 _ x).1) _,
    slot_comm htags 3 (fun x => (copyAddress first.buffer 0 _ x).1)
      (fun x => (copyAddress second.buffer 0 _ x).1) _,
    slot_comm htags 6 (fun x => (copyAddress first.buffer 0 _ x).1)
      (fun x => (copyAddress second.buffer 0 _ x).1) _,
    slot_comm htags 12 (fun x => (copyText first.buffer 0 _ (ascii "Host Name") x).1)
      (fun x => (copyText second.buffer 0 _ (ascii "Host Name") x).1) _,
    slot_comm htags 17 (fun x => (copyText first.buffer 0 _ (ascii "Root Path") x).1)
      (fun x => (copyText second.buffer 0 _ (ascii "Root Path") x).1) _,
    slot_comm htags 40 (fun x => (copyText first.buffer 0 _ (ascii "NIS Domain Name") x).1)
      (fun x => (copyText second.buffer 0 _ (ascii "NIS Domain Name") x).1) _⟩

theorem foldl_settings (options : List VendorOption) (s : VendorParams) :
    (options.foldl VendorOption.apply s).settings =
      options.foldl VendorOption.settle s.settings := by
  induction options generalizing s with
  | nil =>
      rfl
  | cons option options ih =>
      rw [List.foldl_cons, List.foldl_cons, settle_settings, ih]
      rfl

theorem foldl_settings_perm {first second : List VendorOption} (hperm : first.Perm second)
    (hdistinct : (first.map VendorOption.tag).Nodup) (s : VendorParams) :
    (first.foldl VendorOption.apply s).settings =
      (second.foldl VendorOption.apply s).settings := by
  rw [foldl_settings, foldl_settings]
  apply hperm.foldl_eq'
  intro option hoption other hother t
  by_cases heq : option = other
  · rw [heq]
  · have htags : option.tag ≠ other.tag :=
      fun htag => heq (List.inj_on_of_nodup_map hdistinct hoption hother htag)
    exact settle_comm t htags

/-!
# The boot file size
-/

theorem field_blocks {mem : Buffer} {ext : Nat} {option : VendorOption}
    (hholds : Holds mem ext option.bytes) (s : VendorParams) :
    (bootpVendorFieldProcess mem ext s).1.netBootFileSize =
      if option.tag = 13#8 then option.blocks else 0#16 := by
  obtain ⟨htag, hsize⟩ := holds_header hholds
  rw [field_bootFileSize, htag, hsize, bootFileSize_congr (holds_value hholds)]
  simp only [toNat_eq_iff option 13 (by decide)]
  rfl

theorem apply_blocks (s : VendorParams) (option : VendorOption) :
    (option.apply s).netBootFileSize =
      if option.tag = 13#8 then option.blocks else 0#16 :=
  field_blocks (holds_buffer option) s

theorem foldl_blocks {options : List VendorOption} (hsome : options ≠ [])
    (hzero : forall option, option ∈ options -> option.tag = 13#8 -> option.blocks = 0#16)
    (s : VendorParams) : (options.foldl VendorOption.apply s).netBootFileSize = 0#16 := by
  have hlast := List.dropLast_append_getLast hsome
  rw [← hlast, List.foldl_append, List.foldl_cons, List.foldl_nil, apply_blocks]
  split
  case isTrue htag =>
      exact hzero _ (List.getLast_mem hsome) htag
  case isFalse htag =>
      rfl

/-- A boot file size that is not zero has no other option beside it. -/
def BlocksAlone (options : List VendorOption) : Prop :=
  forall option, option ∈ options -> option.tag = 13#8 -> option.blocks ≠ 0#16 ->
    options = [option]

theorem foldl_values_perm {first second : List VendorOption} (hperm : first.Perm second)
    (hdistinct : (first.map VendorOption.tag).Nodup) (halone : BlocksAlone first)
    (s : VendorParams) :
    (first.foldl VendorOption.apply s).values = (second.foldl VendorOption.apply s).values := by
  rw [values_eq_iff]
  refine ⟨foldl_settings_perm hperm hdistinct s, ?_⟩
  by_cases hnil : first = []
  · rw [hnil] at hperm ⊢
    rw [hperm.nil_eq]
  by_cases hone : exists option, first = [option]
  · obtain ⟨option, hoption⟩ := hone
    rw [hoption] at hperm ⊢
    rw [← List.singleton_perm.1 hperm]
  · have hzero : forall option, option ∈ first -> option.tag = 13#8 ->
        option.blocks = 0#16 := by
      intro option hmem htag
      by_cases hblocks : option.blocks = 0#16
      · exact hblocks
      · exact absurd ⟨option, halone option hmem htag hblocks⟩ hone
    have hnil' : second ≠ [] := by
      intro heq
      rw [heq] at hperm
      exact hnil hperm.eq_nil
    rw [foldl_blocks hnil hzero, foldl_blocks hnil'
      (fun option hmem => hzero option (hperm.mem_iff.2 hmem))]

/-!
# Areas that differ
-/

/-- A layout at the start of the memory, with an end option. -/
def markedArea (layout : Layout) : VendorArea layout where
  mem := fun i => (layout.bytes ++ [0xff#8]).getD i 0#8
  ext := 0
  size := layout.bytes.length + 1
  holds := by
    intro i hi
    dsimp only
    rw [Nat.zero_add, List.getD_eq_getElem?_getD, List.getElem?_append_left hi,
      List.getElem?_eq_getElem hi]
    rfl
  ended := by
    refine Or.inr ⟨Nat.lt_succ_self _, ?_⟩
    rw [Nat.zero_add, List.getD_eq_getElem?_getD, List.getElem?_append_right (Nat.le_refl _),
      Nat.sub_self]
    rfl

theorem markedArea_behind (layout : Layout) (i : Nat) :
    (markedArea layout).mem (layout.bytes.length + i) = [0xff#8].getD i 0#8 := by
  unfold markedArea
  dsimp only
  rw [List.getD_eq_getElem?_getD, List.getElem?_append_right (Nat.le_add_right _ _),
    Nat.add_sub_cancel_left, List.getD_eq_getElem?_getD]

theorem markedArea_same (first second : Layout) :
    SameBehind (markedArea first) (markedArea second) := by
  intro i
  show (markedArea first).mem (0 + _ + i) = (markedArea second).mem (0 + _ + i)
  rw [Nat.zero_add, Nat.zero_add, markedArea_behind, markedArea_behind]

theorem options_append (first second : Layout) :
    Layout.options (first ++ second) = first.options ++ second.options := by
  unfold Layout.options
  exact List.reduceOption_append first second

theorem options_map_some (options : List VendorOption) :
    Layout.options (options.map some) = options := by
  unfold Layout.options
  induction options with
  | nil =>
      rfl
  | cons option options ih =>
      rw [List.map_cons, List.reduceOption_cons_of_some, ih]

theorem exists_others {options : List VendorOption} {option : VendorOption}
    (h : option ∈ options) : exists others, (others ++ [option]).Perm options ∧
      (option :: others).Perm options := by
  obtain ⟨front, back, rfl⟩ := List.append_of_mem h
  refine ⟨front ++ back, ?_, List.perm_middle.symm⟩
  exact (List.perm_append_singleton option (front ++ back)).trans List.perm_middle.symm

theorem walk_blocks (layout : Layout) (option : VendorOption) (mem : Buffer) (ext : Nat)
    (s : VendorParams) (hholds : Holds mem ext (Layout.bytes (layout ++ [some option]))) :
    (walk mem ext (layout ++ [some option]) s).netBootFileSize =
      if option.tag = 13#8 then option.blocks else 0#16 := by
  rw [Layout.bytes_append, holds_append] at hholds
  have hoption : Holds mem (ext + layout.bytes.length) option.bytes := by
    have hlast := hholds.2
    rw [Layout.bytes_some] at hlast
    exact (holds_append.1 hlast).1
  rw [walk_append]
  exact field_blocks hoption _

theorem not_orderFree_blocks {s : VendorParams} {options : List VendorOption}
    (hdistinct : (options.map VendorOption.tag).Nodup) {option : VendorOption}
    (hmem : option ∈ options) (htag : option.tag = 13#8) (hblocks : option.blocks ≠ 0#16)
    (hmore : options ≠ [option]) : ¬ OrderFree s options := by
  obtain ⟨others, hlast, hfirst⟩ := exists_others hmem
  have hothers : others ≠ [] := by
    intro hnil
    rw [hnil] at hfirst
    exact hmore (List.singleton_perm.1 hfirst).symm
  have hend := List.dropLast_append_getLast hothers
  generalize hother : others.getLast hothers = other at hend
  generalize others.dropLast = front at hend
  subst hend
  have hdiffers : other.tag ≠ 13#8 := by
    intro heq
    have hnodup := (hfirst.map VendorOption.tag).nodup_iff.2 hdistinct
    rw [List.map_cons, List.nodup_cons] at hnodup
    refine hnodup.1 (List.mem_map.2 ⟨other, by simp, ?_⟩)
    rw [heq, htag]
  intro hfree
  have hvalues := hfree ((front ++ [other]).map some ++ [some option])
    ((option :: front).map some ++ [some other]) (markedArea _) (markedArea _)
    (by
      rw [options_append, options_map_some]
      exact hlast)
    (by
      rw [options_append, options_map_some]
      exact hfirst) (markedArea_same _ _)
  rw [VendorArea.values_walk, VendorArea.values_walk, Option.some.injEq, values_eq_iff,
    walk_blocks _ _ _ _ _ (markedArea _).holds, walk_blocks _ _ _ _ _ (markedArea _).holds,
    if_pos htag, if_neg hdiffers] at hvalues
  exact hblocks hvalues.2

def VendorParams.address (s : VendorParams) (tag : Byte) : BitVec 32 :=
  if tag = 1#8 then s.netOurSubnetMask
  else if tag = 3#8 then s.netOurGatewayIP
  else s.netOurDNSIP

theorem address_of_values {s t : VendorParams} (h : s.values = t.values) (tag : Byte) :
    s.address tag = t.address tag := by
  obtain ⟨hmask, hgateway, hdns, _⟩ :=
    (settings_eq_iff s t).1 ((values_eq_iff s t).1 h).1
  unfold VendorParams.address
  rw [hmask, hgateway, hdns]

theorem field_address {mem : Buffer} {ext : Nat} {option : VendorOption}
    (hholds : Holds mem ext option.bytes) {s : VendorParams}
    (htag : option.tag = 1#8 ∨ option.tag = 3#8 ∨ option.tag = 6#8)
    (hunset : s.unset option.tag.toNat = true) :
    (bootpVendorFieldProcess mem ext s).1.address option.tag = netReadIP mem (ext + 2) := by
  have hmem : mem ext = option.tag := (holds_header hholds).1
  rcases htag with htag | htag | htag
  · rw [htag] at hunset hmem ⊢
    unfold VendorParams.address
    rw [if_pos rfl, field_mask, hmem, if_pos (by decide), copyAddress,
      if_pos (of_decide_eq_true hunset)]
  · rw [htag] at hunset hmem ⊢
    unfold VendorParams.address
    rw [if_neg (by decide), if_pos rfl, field_gateway, hmem, if_pos (by decide), copyAddress,
      if_pos (of_decide_eq_true hunset)]
  · rw [htag] at hunset hmem ⊢
    unfold VendorParams.address
    rw [if_neg (by decide), if_neg (by decide), field_dns, hmem, if_pos (by decide),
      copyAddress, if_pos (of_decide_eq_true hunset)]

theorem walk_unset (mem : Buffer) (options : List VendorOption) {tag : Byte} :
    forall (ext : Nat) (s : VendorParams), Holds mem ext (Layout.bytes (options.map some)) ->
      tag ∉ options.map VendorOption.tag ->
      (walk mem ext (options.map some) s).unset tag.toNat = s.unset tag.toNat := by
  induction options with
  | nil =>
      intro ext s _ _
      rfl
  | cons option options ih =>
      intro ext s hholds hother
      rw [List.map_cons, Layout.bytes_some, holds_append, VendorOption.length_bytes,
        ← Nat.add_assoc] at hholds
      rw [List.map_cons, List.mem_cons, not_or] at hother
      have hmem : mem ext = option.tag := (holds_header hholds.1).1
      have htag : tag.toNat ≠ (mem ext).toNat := by
        rw [hmem]
        exact fun heq => hother.1 (BitVec.eq_of_toNat_eq heq)
      show (walk mem (ext + option.size + 2) (options.map some) _).unset tag.toNat = _
      rw [ih _ _ hholds.2 hother.2, field_unset, decide_eq_false htag, Bool.false_and,
        Bool.not_false, Bool.and_true]

theorem netReadIP_bytes {mem mem' : Buffer} {i i' : Nat}
    (h : netReadIP mem i = netReadIP mem' i') :
    forall k, k < 4 -> mem (i + k) = mem' (i' + k) := by
  have hbytes := congrArg wordBytes h
  unfold netReadIP at hbytes
  rw [wordBytes_bytesWord rfl, wordBytes_bytesWord rfl] at hbytes
  simp only [List.cons.injEq, and_true] at hbytes
  intro k hk
  match k with
  | 0 => exact hbytes.1
  | 1 => exact hbytes.2.1
  | 2 => exact hbytes.2.2.1
  | 3 => exact hbytes.2.2.2

theorem walk_address (options : List VendorOption) (option : VendorOption) (rest : Layout)
    (hrest : forall (mem : Buffer) (ext : Nat) (s : VendorParams), walk mem ext rest s = s)
    (hother : option.tag ∉ options.map VendorOption.tag)
    (htag : option.tag = 1#8 ∨ option.tag = 3#8 ∨ option.tag = 6#8) {s : VendorParams}
    (hunset : s.unset option.tag.toNat = true)
    (area : VendorArea (options.map some ++ some option :: rest)) :
    (walk area.mem area.ext (options.map some ++ some option :: rest) s).address option.tag =
      netReadIP area.mem (area.ext + (Layout.bytes (options.map some)).length + 2) := by
  have hholds := area.holds
  rw [Layout.bytes_append, Layout.bytes_some, holds_append, holds_append] at hholds
  rw [walk_append]
  unfold walk
  rw [hrest]
  apply field_address hholds.2.1 htag
  rw [walk_unset _ _ _ _ hholds.1 hother, hunset]

theorem not_orderFree_short {s : VendorParams} {options : List VendorOption}
    (hdistinct : (options.map VendorOption.tag).Nodup) {option : VendorOption}
    (hmem : option ∈ options) (hshort : option.ShortAddress)
    (hunset : s.unset option.tag.toNat = true) : ¬ OrderFree s options := by
  obtain ⟨others, hlast, hfirst⟩ := exists_others hmem
  have hother : option.tag ∉ others.map VendorOption.tag := by
    have hnodup := (hfirst.map VendorOption.tag).nodup_iff.2 hdistinct
    rw [List.map_cons, List.nodup_cons] at hnodup
    exact hnodup.1
  have hoptions : forall rest : Layout, rest.options = [] ->
      (Layout.options (others.map some ++ some option :: rest)).Perm options := by
    intro rest hrest
    have hone : Layout.options (some option :: rest) = [option] := by
      unfold Layout.options at hrest ⊢
      rw [List.reduceOption_cons_of_some, hrest]
    rw [options_append, options_map_some, hone]
    exact hlast
  intro hfree
  -- the byte behind the value is the end option in one area, and a pad in the other
  have hvalues := hfree (others.map some ++ [some option])
    (others.map some ++ [some option, none]) (markedArea _) (markedArea _)
    (hoptions [] rfl) (hoptions [none] rfl) (markedArea_same _ _)
  rw [VendorArea.values_walk, VendorArea.values_walk, Option.some.injEq] at hvalues
  have haddress := address_of_values hvalues option.tag
  rw [walk_address others option [] (fun _ _ _ => rfl) hother hshort.1 hunset,
    walk_address others option [none] (fun _ _ _ => rfl) hother hshort.1 hunset] at haddress
  have hbyte := netReadIP_bytes haddress option.size hshort.2
  have hend : (markedArea (others.map some ++ [some option])).mem
      (0 + (Layout.bytes (others.map some)).length + 2 + option.size) = 0xff#8 := by
    have hbehind := markedArea_behind (others.map some ++ [some option]) 0
    rw [Layout.bytes_append, List.length_append] at hbehind
    rw [show 0 + (Layout.bytes (others.map some)).length + 2 + option.size =
      (Layout.bytes (others.map some)).length + (Layout.bytes [some option]).length + 0 by
      rw [Layout.bytes_some, List.length_append, VendorOption.length_bytes]
      simp only [Layout.bytes, List.flatMap_nil, List.length_nil]
      omega]
    exact hbehind
  have hpad : (markedArea (others.map some ++ [some option, none])).mem
      (0 + (Layout.bytes (others.map some)).length + 2 + option.size) = 0#8 := by
    have hholds := (markedArea (others.map some ++ [some option, none])).holds
    rw [Layout.bytes_append, Layout.bytes_some, holds_append, holds_append] at hholds
    have hzero := hholds.2.2 0 Nat.one_pos
    rw [VendorOption.length_bytes] at hzero
    rw [show 0 + (Layout.bytes (others.map some)).length + 2 + option.size =
      0 + (Layout.bytes (others.map some)).length + (option.size + 2) + 0 by omega]
    exact hzero
  have hsame : (0xff#8 : Byte) = 0#8 := by
    rw [← hend, ← hpad]
    exact hbyte
  exact absurd hsame (by decide)

theorem bootp_order_free_iff (s : VendorParams) (options : List VendorOption)
    (hdistinct : (options.map VendorOption.tag).Nodup) :
    OrderFree s options <->
      (forall option, option ∈ options -> option.ShortAddress ->
        s.unset option.tag.toNat = false) ∧ BlocksAlone options := by
  constructor
  · intro hfree
    constructor
    · intro option hmem hshort
      by_cases hunset : s.unset option.tag.toNat = true
      · exact absurd hfree (not_orderFree_short hdistinct hmem hshort hunset)
      · exact Bool.eq_false_of_not_eq_true hunset
    · intro option hmem htag hblocks
      by_cases halone : options = [option]
      · exact halone
      · exact absurd hfree (not_orderFree_blocks hdistinct hmem htag hblocks halone)
  · rintro ⟨hshort, halone⟩ first second a b hfirst hsecond _
    have hwalk : forall {layout : Layout} (area : VendorArea layout),
        layout.options.Perm options ->
        area.values s = some (options.foldl VendorOption.apply s).values := by
      intro layout area hperm
      rw [VendorArea.values_walk, walk_apply area.mem layout area.ext s area.holds
        (fun option hmem => hshort option (hperm.mem_iff.1 hmem)),
        foldl_values_perm hperm.symm hdistinct halone s]
    rw [hwalk a hfirst, hwalk b hsecond]

def sampleOptions : List VendorOption :=
  [⟨1#8, [255#8, 255#8, 255#8, 0#8], by decide, by decide⟩,
    ⟨12#8, [97#8, 98#8], by decide, by decide⟩]

theorem bootp_order_free_iff_sample : OrderFree sampleVendor sampleOptions :=
  (bootp_order_free_iff sampleVendor sampleOptions (by decide)).2
    ⟨by simp [sampleOptions, VendorOption.ShortAddress, VendorOption.size],
      by simp [sampleOptions, BlocksAlone]⟩

def sampleBlocks : List VendorOption :=
  [⟨13#8, [0#8, 5#8], by decide, by decide⟩,
    ⟨1#8, [255#8, 255#8, 255#8, 0#8], by decide, by decide⟩]

theorem bootp_order_matters :
    (sampleBlocks.map VendorOption.tag).Nodup ∧ ¬ OrderFree sampleVendor sampleBlocks :=
  ⟨by decide, not_orderFree_blocks (by decide) List.mem_cons_self rfl (by decide)
    (by simp [sampleBlocks])⟩

end Network
end Bab750
