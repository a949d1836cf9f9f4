import Bab750.Boot.Mkimage
import Bab750.Foundation.HexText
import Bab750.Foundation.Utf8Strict

/-!
# The listing of an image

`image_print_contents` of `common/image.c` as `mkimage -l` runs it on a host, where the prefix of
the lines is empty. Only the name can have other bytes than printable ones of 7 bits.
-/

namespace Bab750
namespace Boot

open Foundation

/-!
# Tables of names
-/

/-- `uimage_arch`, the long names; `IH_ARCH_PPC` stands in it twice. -/
def uimageArch : List (Nat × String) :=
  [(0, "Invalid ARCH"), (1, "Alpha"), (2, "ARM"), (3, "Intel x86"), (4, "IA64"), (12, "M68K"),
    (14, "MicroBlaze"), (5, "MIPS"), (6, "MIPS 64 Bit"), (15, "NIOS II"), (7, "PowerPC"),
    (7, "PowerPC"), (8, "IBM S390"), (9, "SuperH"), (10, "SPARC"), (11, "SPARC 64 Bit"),
    (16, "Blackfin"), (17, "AVR32")]

def uimageOs : List (Nat × String) :=
  [(0, "Invalid OS"), (5, "Linux"), (13, "LynxOS"), (2, "NetBSD"), (18, "RTEMS"), (17, "U-Boot"),
    (16, "QNX"), (14, "VxWorks"), (21, "INTEGRITY"), (4, "4_4BSD"), (11, "Dell"), (7, "Esix"),
    (3, "FreeBSD"), (9, "IRIX"), (12, "NCR"), (1, "OpenBSD"), (15, "pSOS"), (10, "SCO"),
    (8, "Solaris"), (6, "SVR4")]

def uimageType : List (Nat × String) :=
  [(0, "Invalid Image"), (7, "Filesystem Image"), (5, "Firmware"), (2, "Kernel Image"),
    (4, "Multi-File Image"), (3, "RAMDisk Image"), (6, "Script"), (1, "Standalone Program"),
    (8, "Flat Device Tree"), (9, "Kirkwood Boot Image"), (10, "Freescale i.MX Boot Image")]

def uimageComp : List (Nat × String) :=
  [(0, "uncompressed"), (2, "bzip2 compressed"), (1, "gzip compressed"), (3, "lzma compressed"),
    (4, "lzo compressed")]

def getTableEntryName (table : List (Nat × String)) (msg : String) (id : Byte) : Text :=
  match table.find? (fun entry => entry.1 == id.toNat) with
  | some entry => chars entry.2
  | none => chars msg

/-!
# Numbers
-/

def decimal (n : Int) : Text :=
  if n < 0 then '-' :: Nat.toDigits 10 n.natAbs else Nat.toDigits 10 n.natAbs

/-- `%08x`, and `%08lx` -/
def hexPadded (n : Nat) : Text :=
  List.replicate (8 - (Nat.toDigits 16 n).length) '0' ++ Nat.toDigits 16 n

/-- `%.2f` of a quotient that a double holds exactly; a tie goes to the even digit. -/
def twoPlaces (n divisor : Nat) : Text :=
  let hundredths :=
    if divisor < 2 * (100 * n % divisor) ∨
        (2 * (100 * n % divisor) = divisor ∧ 100 * n / divisor % 2 = 1) then
      100 * n / divisor + 1
    else 100 * n / divisor
  Nat.toDigits 10 (hundredths / 100) ++
    ['.', Nat.digitChar (hundredths / 10 % 10), Nat.digitChar (hundredths % 10)]

def genimgPrintSize (size : BitVec 32) : Text :=
  decimal size.toInt ++ chars " Bytes = " ++ twoPlaces size.toNat 1024 ++ chars " kB = " ++
    twoPlaces size.toNat 1048576 ++ chars " MB\n"

/-!
# The listing
-/

/-- What `ctime` makes of a time, up to the line feed; it depends on the time zone of the host. -/
structure HostClock where
  line : BitVec 32 -> Text
  printable : forall time c, c ∈ line time -> 0x20 <= c.toNat ∧ c.toNat < 0x7f

def HostClock.ctime (clock : HostClock) (time : BitVec 32) : Text := clock.line time ++ ['\n']

/-- The name, which `%.*s` prints: up to a NUL, or all of it. -/
def nameText (f : HeaderFields) : List Byte := f.name.takeWhile (fun b => b != 0#8)

def imagePrintType (f : HeaderFields) : Text :=
  getTableEntryName uimageArch "Unknown Architecture" f.arch ++ [' '] ++
    getTableEntryName uimageOs "Unknown OS" f.os ++ [' '] ++
    getTableEntryName uimageType "Unknown Image" f.type ++ chars " (" ++
    getTableEntryName uimageComp "Unknown Compression" f.comp ++ chars ")\n"

/-- The lines for the components from number `i` on: what `image_multi_getimg` gives for each. -/
def componentLines (script : Bool) (i : Nat) : List (BitVec 32 × BitVec 64) -> Text
  | [] => []
  | (len, data) :: rest =>
      chars "   Image " ++ Nat.toDigits 10 i ++ chars ": " ++ genimgPrintSize len ++
        (if script && 0 < i then chars "    Offset = 0x" ++ hexPadded data.toNat ++ ['\n']
        else []) ++ componentLines script (i + 1) rest

def linesBehindName (clock : HostClock) (f : HeaderFields) (size : BitVec 32)
    (components : List (BitVec 32 × BitVec 64)) : Text :=
  ['\n'] ++ chars "Created:      " ++ clock.ctime f.time ++
    chars "Image Type:   " ++ imagePrintType f ++
    chars "Data Size:    " ++ genimgPrintSize size ++
    chars "Load Address: " ++ hexPadded f.load.toNat ++ ['\n'] ++
    chars "Entry Point:  " ++ hexPadded f.ep.toNat ++ ['\n'] ++
    (if f.type = typeMulti ∨ f.type = typeScript then
      chars "Contents:\n" ++ componentLines (f.type = typeScript) 0 components
    else [])

/--
`image_print_contents`: the bytes that it prints for a header with the given data size;
`components` is what it finds in the table of a multi-file image or a script.
-/
def imagePrintContents (clock : HostClock) (f : HeaderFields) (size : BitVec 32)
    (components : List (BitVec 32 × BitVec 64)) : List Byte :=
  plainBytes (chars "Image Name:   ") ++ nameText f ++
    plainBytes (linesBehindName clock f size components)

/-!
# What is printed
-/

def Printable (text : Text) : Prop := forall c, c ∈ text -> 0x20 <= c.toNat ∧ c.toNat < 0x7f

theorem printable_append {front back : Text} (hfront : Printable front)
    (hback : Printable back) : Printable (front ++ back) := by
  intro c hc
  rcases List.mem_append.mp hc with hmem | hmem
  · exact hfront c hmem
  · exact hback c hmem

theorem printable_chars {text : String}
    (h : (chars text).all (fun c => 0x20 <= c.toNat && c.toNat < 0x7f) = true) :
    Printable (chars text) := by
  intro c hc
  have hc' := List.all_eq_true.mp h c hc
  rw [Bool.and_eq_true, decide_eq_true_iff, decide_eq_true_iff] at hc'
  exact hc'

theorem printable_digitChar {d : Nat} (hd : d < 16) :
    0x20 <= (Nat.digitChar d).toNat ∧ (Nat.digitChar d).toNat < 0x7f := by
  revert d
  decide

theorem printable_digits {base : Nat} (hbase : 1 < base) (hsixteen : base <= 16) (n : Nat) :
    Printable (Nat.toDigits base n) := by
  intro c hc
  rcases mem_toDigits hbase hc with ⟨d, hd, rfl⟩
  exact printable_digitChar (by omega)

theorem printable_hexPadded (n : Nat) : Printable (hexPadded n) := by
  refine printable_append (fun c hc => ?_) (printable_digits (by omega) (by omega) n)
  rw [List.eq_of_mem_replicate hc]
  decide

theorem printable_decimal (n : Int) : Printable (decimal n) := by
  have hdigits := printable_digits (by omega : 1 < 10) (by omega) n.natAbs
  unfold decimal
  split
  · intro c hc
    rcases List.mem_cons.mp hc with rfl | hc
    · decide
    · exact hdigits c hc
  · exact hdigits

theorem printable_twoPlaces (n divisor : Nat) : Printable (twoPlaces n divisor) := by
  have htail : forall h : Nat,
      Printable ['.', Nat.digitChar (h / 10 % 10), Nat.digitChar (h % 10)] := by
    intro h c hc
    simp only [List.mem_cons, List.not_mem_nil, or_false] at hc
    rcases hc with rfl | rfl | rfl
    · decide
    · exact printable_digitChar (by omega)
    · exact printable_digitChar (by omega)
  exact printable_append (printable_digits (by omega) (by omega) _) (htail _)

theorem printable_entryName {table : List (Nat × String)} {msg : String}
    (htable : table.all (fun entry =>
      (chars entry.2).all (fun c => 0x20 <= c.toNat && c.toNat < 0x7f)) = true)
    (hmsg : (chars msg).all (fun c => 0x20 <= c.toNat && c.toNat < 0x7f) = true) (id : Byte) :
    Printable (getTableEntryName table msg id) := by
  unfold getTableEntryName
  split
  case h_1 entry hfind =>
      exact printable_chars (List.all_eq_true.mp htable entry (List.mem_of_find?_eq_some hfind))
  case h_2 =>
      exact printable_chars hmsg

theorem genimgPrintSize_line (size : BitVec 32) :
    exists line, Printable line ∧ genimgPrintSize size = line ++ ['\n'] := by
  refine ⟨decimal size.toInt ++ chars " Bytes = " ++ twoPlaces size.toNat 1024 ++
    chars " kB = " ++ twoPlaces size.toNat 1048576 ++ chars " MB", ?_, ?_⟩
  · exact printable_append (printable_append (printable_append (printable_append
      (printable_append (printable_decimal _) (printable_chars (by decide)))
      (printable_twoPlaces _ _)) (printable_chars (by decide))) (printable_twoPlaces _ _))
      (printable_chars (by decide))
  · unfold genimgPrintSize
    rw [List.append_assoc _ (chars " MB") ['\n']]
    rfl

theorem imagePrintType_line (f : HeaderFields) :
    exists line, Printable line ∧ imagePrintType f = line ++ ['\n'] := by
  refine ⟨getTableEntryName uimageArch "Unknown Architecture" f.arch ++ [' '] ++
    getTableEntryName uimageOs "Unknown OS" f.os ++ [' '] ++
    getTableEntryName uimageType "Unknown Image" f.type ++ chars " (" ++
    getTableEntryName uimageComp "Unknown Compression" f.comp ++ chars ")", ?_, ?_⟩
  · have hspace : Printable [' '] := @printable_chars " " (by decide)
    exact printable_append (printable_append (printable_append (printable_append
      (printable_append (printable_append (printable_append
        (printable_entryName (by decide) (by decide) _) hspace)
        (printable_entryName (by decide) (by decide) _)) hspace)
        (printable_entryName (by decide) (by decide) _)) (printable_chars (by decide)))
        (printable_entryName (by decide) (by decide) _)) (printable_chars (by decide))
  · unfold imagePrintType
    rw [List.append_assoc _ (chars ")") ['\n']]
    rfl

def PlainLines (text : Text) : Prop :=
  forall c, c ∈ text -> c = '\n' ∨ (0x20 <= c.toNat ∧ c.toNat < 0x7f)

theorem PlainLines.sevenBit {text : Text} (h : PlainLines text) : SevenBit text := by
  intro c hc
  rcases h c hc with rfl | hrange
  · decide
  · omega

theorem plainLines_append {front back : Text} (hfront : PlainLines front)
    (hback : PlainLines back) : PlainLines (front ++ back) := by
  intro c hc
  rcases List.mem_append.mp hc with hmem | hmem
  · exact hfront c hmem
  · exact hback c hmem

theorem plainLines_of_printable {text : Text} (h : Printable text) : PlainLines text :=
  fun c hc => Or.inr (h c hc)

theorem plainLines_nil : PlainLines [] := fun _ hc => absurd hc List.not_mem_nil

theorem plainLines_feed : PlainLines ['\n'] := fun _ hc => Or.inl (List.mem_singleton.mp hc)

theorem plainLines_genimgPrintSize (size : BitVec 32) : PlainLines (genimgPrintSize size) := by
  rcases genimgPrintSize_line size with ⟨line, hline, heq⟩
  rw [heq]
  exact plainLines_append (plainLines_of_printable hline) plainLines_feed

theorem plainLines_componentLines (script : Bool) (components : List (BitVec 32 × BitVec 64)) :
    forall i, PlainLines (componentLines script i components) := by
  induction components with
  | nil =>
      exact fun _ => plainLines_nil
  | cons component rest ih =>
      intro i
      have hfront : PlainLines (chars "   Image " ++ Nat.toDigits 10 i ++ chars ": ") :=
        plainLines_of_printable (printable_append (printable_append (printable_chars (by decide))
          (printable_digits (by omega) (by omega) i)) (printable_chars (by decide)))
      have hoffset : PlainLines (if script && 0 < i then
          chars "    Offset = 0x" ++ hexPadded component.2.toNat ++ ['\n'] else []) := by
        split
        · exact plainLines_append (plainLines_of_printable (printable_append
            (printable_chars (by decide)) (printable_hexPadded _))) plainLines_feed
        · exact plainLines_nil
      exact plainLines_append (plainLines_append (plainLines_append hfront
        (plainLines_genimgPrintSize component.1)) hoffset) (ih (i + 1))

structure ListingLines (f : HeaderFields) (created type size contents text : Text) : Prop where
  createdLine : Printable created
  typeLine : Printable type
  sizeLine : Printable size
  contentLines : PlainLines contents
  lines : text = '\n' :: (chars "Created:      " ++ created) ++
    '\n' :: (chars "Image Type:   " ++ type) ++ '\n' :: (chars "Data Size:    " ++ size) ++
    '\n' :: (chars "Load Address: " ++ hexPadded f.load.toNat) ++
    '\n' :: (chars "Entry Point:  " ++ hexPadded f.ep.toNat) ++ '\n' :: contents

theorem linesBehindName_lines (clock : HostClock) (f : HeaderFields) (size : BitVec 32)
    (components : List (BitVec 32 × BitVec 64)) : exists type sizes contents,
    ListingLines f (clock.line f.time) type sizes contents
      (linesBehindName clock f size components) := by
  rcases imagePrintType_line f with ⟨type, htype, htypes⟩
  rcases genimgPrintSize_line size with ⟨line, hline, hsize⟩
  refine ⟨type, line, if f.type = typeMulti ∨ f.type = typeScript then
      chars "Contents:\n" ++ componentLines (f.type = typeScript) 0 components else [],
    clock.printable f.time, htype, hline, ?_, ?_⟩
  · split
    · exact plainLines_append (plainLines_append (plainLines_of_printable
        (@printable_chars "Contents:" (by decide))) plainLines_feed)
        (plainLines_componentLines _ _ _)
    · exact plainLines_nil
  · unfold linesBehindName HostClock.ctime
    rw [htypes, hsize]
    simp only [List.append_assoc, List.cons_append, List.nil_append]

theorem ListingLines.nested {f : HeaderFields} {created type size contents text : Text}
    (h : ListingLines f created type size contents text) :
    text = '\n' :: ((chars "Created:      " ++ created) ++
      '\n' :: ((chars "Image Type:   " ++ type) ++ '\n' :: ((chars "Data Size:    " ++ size) ++
      '\n' :: ((chars "Load Address: " ++ hexPadded f.load.toNat) ++
      '\n' :: ((chars "Entry Point:  " ++ hexPadded f.ep.toNat) ++ '\n' :: contents))))) := by
  rw [h.lines]
  simp only [List.append_assoc, List.cons_append]

theorem ListingLines.plainLines {f : HeaderFields} {created type size contents text : Text}
    (h : ListingLines f created type size contents text) : PlainLines text := by
  have hline : forall (label : String) (line : Text),
      (chars label).all (fun c => 0x20 <= c.toNat && c.toNat < 0x7f) = true ->
      Printable line -> PlainLines ('\n' :: (chars label ++ line)) := by
    intro label line hlabel hprint
    exact plainLines_append plainLines_feed
      (plainLines_of_printable (printable_append (printable_chars hlabel) hprint))
  rw [h.lines]
  refine plainLines_append (plainLines_append (plainLines_append (plainLines_append
    (plainLines_append ?_ ?_) ?_) ?_) ?_) (plainLines_append plainLines_feed h.contentLines)
  · exact hline _ _ (by decide) h.createdLine
  · exact hline _ _ (by decide) h.typeLine
  · exact hline _ _ (by decide) h.sizeLine
  · exact hline _ _ (by decide) (printable_hexPadded _)
  · exact hline _ _ (by decide) (printable_hexPadded _)

end Boot
end Bab750
