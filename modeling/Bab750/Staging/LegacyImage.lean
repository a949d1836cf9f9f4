import Bab750.Boot.Listing
import Bab750.Console.Netboot

/-!
# The kernel image that is wrapped again

`parse_mkimage_header` and `build_legacy_cuimage` of
`bab750_prepare_legacy_linux_netboot.py`: name, load address and entry point are read off what
`mkimage -l` prints for one image, and given to `mkimage` for another one.
-/

namespace Bab750
namespace Staging

open Foundation
open Boot

/-!
# The expressions
-/

/-- `^label\s+` at the start of a line: the text behind it. `\s` matches line feeds too. -/
def behindLabel (label : String) (text : Text) : Option Text :=
  if (chars label).isPrefixOf text then
    let rest := text.drop (chars label).length
    if rest.head?.any Console.isSpace then some (rest.dropWhile Console.isSpace) else none
  else none

/-- `^Image Name:\s+(.*)$` at the start of a line: the group. -/
def nameGroup (text : Text) : Option Text :=
  (behindLabel "Image Name:" text).map (fun rest => rest.takeWhile (fun c => c != '\n'))

/-- `^label\s+([0-9A-Fa-f]+)$` at the start of a line: the group. -/
def hexGroup (label : String) (text : Text) : Option Text :=
  match behindLabel label text with
  | none => none
  | some rest =>
      let digits := rest.takeWhile Console.isHexDigit
      if !digits.isEmpty && (rest.drop digits.length).head?.all (fun c => c == '\n') then
        some digits
      else none

/-- The first match behind the line feeds of a text. -/
def searchBehind (group : Text -> Option Text) : Text -> Option Text
  | [] => none
  | c :: rest =>
      if c = '\n' then
        match group rest with
        | some found => some found
        | none => searchBehind group rest
      else searchBehind group rest

/-- `re.search` with `re.MULTILINE`, for an expression that starts with `^`. -/
def searchLines (group : Text -> Option Text) (text : Text) : Option Text :=
  match group text with
  | some found => some found
  | none => searchBehind group text

/-!
# The script
-/

def parseMkimageHeader (output : Text) : Option (Text × Text × Text) :=
  match searchLines nameGroup output, searchLines (hexGroup "Load Address:") output,
      searchLines (hexGroup "Entry Point:") output with
  | some name, some load, some entry =>
      some (Console.Linux.strip name, Console.Linux.strip load, Console.Linux.strip entry)
  | _, _, _ => none

/-- `run_command` with a pipe: the text of the output, or nothing for a `UnicodeDecodeError`. -/
def commandOutput (bytes : List Byte) : Option Text :=
  (utf8DecodeStrict bytes).map Console.Linux.universalNewlines

def hexDigitValue (c : Char) : Nat :=
  if c.isDigit then c.toNat - 48 else if c.isLower then c.toNat - 87 else c.toNat - 55

/--
`strtoul` to the base 16 for an option of `mkimage`, which exits when it stops in front of the
end. Signs, blanks, and `0x` are left out: the expressions let none of them through.
-/
def strtoul16 (text : Text) : Option (BitVec 32) :=
  if text.all Console.isHexDigit then
    some (BitVec.ofNat 32 (min (text.foldl (fun v c => v * 16 + hexDigitValue c) 0) (2 ^ 64 - 1)))
  else none

/--
The call of `mkimage` in `build_legacy_cuimage`: its parameters, or nothing when it is not made
or exits. A NUL within an argument is a `ValueError`.
-/
def buildLegacyCuimage (mtime : BitVec 32) (imageName loadAddress entryPoint : Text) :
    Option MkimageParams :=
  match strtoul16 loadAddress, strtoul16 entryPoint with
  | some addr, some ep =>
      if h : 0#8 ∉ utf8Encode imageName then
        some {
          os := osLinux
          arch := archPpc
          type := typeKernel
          comp := compNone
          addr := addr
          ep := some ep
          xflag := false
          imagename := utf8Encode imageName
          mtime := mtime
          typeValid := by decide
          imagenameText := h }
      else none
  | _, _ => none

/-!
# Searching line by line
-/

def NoControl (name : List Byte) : Prop :=
  forall b, b ∈ name -> 0x20 <= b.toNat ∧ b.toNat ≠ 0x7f

instance (name : List Byte) : Decidable (NoControl name) :=
  inferInstanceAs (Decidable (forall b, b ∈ name -> _))

theorem searchBehind_line {group : Text -> Option Text} {line : Text} (hline : '\n' ∉ line)
    (rest : Text) : searchBehind group (line ++ '\n' :: rest) = searchLines group rest := by
  induction line with
  | nil =>
      rfl
  | cons c line ih =>
      have hc : c ≠ '\n' := fun hfeed => hline (by rw [hfeed]; exact List.mem_cons_self)
      rw [List.cons_append]
      unfold searchBehind
      rw [if_neg hc]
      exact ih (fun hmem => hline (List.mem_cons_of_mem c hmem))

theorem searchLines_skip {group : Text -> Option Text} {line : Text} (hline : '\n' ∉ line)
    {rest : Text} (hnone : group (line ++ '\n' :: rest) = none) :
    searchLines group (line ++ '\n' :: rest) = searchLines group rest := by
  unfold searchLines
  rw [hnone]
  exact searchBehind_line hline rest

theorem searchLines_hit {group : Text -> Option Text} {text found : Text}
    (h : group text = some found) : searchLines group text = some found := by
  unfold searchLines
  rw [h]

/-!
# The expressions on the lines of a listing
-/

theorem isSpace_of_hexDigit {c : Char} (h : Console.isHexDigit c = true) :
    Console.isSpace c = false := by
  have hall : forall n, n < 128 -> Console.isHexDigit (Char.ofNat n) = true ->
      Console.isSpace (Char.ofNat n) = false := by
    decide
  have hsmall : c.toNat < 128 := by
    have hrange := h
    unfold Console.isHexDigit at hrange
    simp only [Bool.or_eq_true, Bool.and_eq_true, decide_eq_true_eq, Char.le_def,
      UInt32.le_iff_toNat_le] at hrange
    change (48 <= c.toNat ∧ c.toNat <= 57 ∨ 97 <= c.toNat ∧ c.toNat <= 102) ∨
      65 <= c.toNat ∧ c.toNat <= 70 at hrange
    omega
  have hc := hall c.toNat hsmall
  rw [Char.ofNat_toNat] at hc
  exact hc h

theorem behindLabel_eq (label : String) (rest : Text) :
    behindLabel label (chars label ++ ' ' :: rest) = some (rest.dropWhile Console.isSpace) := by
  unfold behindLabel
  rw [if_pos (List.isPrefixOf_iff_prefix.mpr (List.prefix_append _ _)), List.drop_left]
  rfl

/-- The text of a line from its first character on that is not blank. -/
theorem nameGroup_eq {text rest : Text} (hfeed : '\n' ∉ text)
    (hblank : text.dropWhile Console.isSpace ≠ []) :
    nameGroup (chars "Image Name:   " ++ text ++ '\n' :: rest) =
      some (text.dropWhile Console.isSpace) := by
  have hbehind : behindLabel "Image Name:" (chars "Image Name:   " ++ text ++ '\n' :: rest) =
      some (text.dropWhile Console.isSpace ++ '\n' :: rest) := by
    have hsplit : chars "Image Name:   " ++ text ++ '\n' :: rest =
        chars "Image Name:" ++ ' ' :: (' ' :: ' ' :: (text ++ '\n' :: rest)) := by
      rw [List.append_assoc]
      rfl
    rw [hsplit, behindLabel_eq, List.dropWhile_cons_of_pos (by decide),
      List.dropWhile_cons_of_pos (by decide), List.dropWhile_append]
    split
    case isTrue hempty => exact absurd (List.isEmpty_iff.mp hempty) hblank
    case isFalse => rfl
  unfold nameGroup
  rw [hbehind, Option.map_some, List.takeWhile_append_of_pos]
  · rw [List.takeWhile_cons_of_neg (by decide), List.append_nil]
  · intro c hc
    rw [bne_iff_ne]
    rintro rfl
    exact hfeed ((List.dropWhile_sublist _).subset hc)

theorem hexPadded_isHexDigit (n : Nat) :
    forall c, c ∈ hexPadded n -> Console.isHexDigit c = true := by
  have hdigit : forall d, d < 16 -> Console.isHexDigit (Nat.digitChar d) = true := by
    decide
  intro c hc
  rcases List.mem_append.mp hc with hzero | hdigits
  · rw [List.eq_of_mem_replicate hzero]
    decide
  · rcases mem_toDigits (by omega) hdigits with ⟨d, hd, rfl⟩
    exact hdigit d hd

theorem hexPadded_ne_nil (n : Nat) : hexPadded n ≠ [] :=
  List.append_ne_nil_of_right_ne_nil _ Nat.toDigits_ne_nil

theorem hexGroup_eq {label : String} {blanks : Text} (hblanks : blanks.all Console.isSpace = true)
    (n : Nat) (rest : Text) :
    hexGroup label (chars label ++ ' ' :: (blanks ++ (hexPadded n ++ '\n' :: rest))) =
      some (hexPadded n) := by
  have hdigits := hexPadded_isHexDigit n
  have hblank : (blanks ++ (hexPadded n ++ '\n' :: rest)).dropWhile Console.isSpace =
      hexPadded n ++ '\n' :: rest := by
    rw [List.dropWhile_append_of_pos (List.all_eq_true.mp hblanks)]
    cases hhex : hexPadded n with
    | nil =>
        exact absurd hhex (hexPadded_ne_nil n)
    | cons c digits =>
        rw [hhex] at hdigits
        rw [List.cons_append, List.dropWhile_cons_of_neg]
        rw [isSpace_of_hexDigit (hdigits c List.mem_cons_self)]
        decide
  have htake : (hexPadded n ++ '\n' :: rest).takeWhile Console.isHexDigit = hexPadded n := by
    rw [List.takeWhile_append_of_pos hdigits, List.takeWhile_cons_of_neg (by decide),
      List.append_nil]
  unfold hexGroup
  rw [behindLabel_eq, hblank]
  dsimp only
  rw [htake, List.drop_left]
  have hsome : (hexPadded n).isEmpty = false := List.isEmpty_eq_false_iff.mpr (hexPadded_ne_nil n)
  rw [hsome]
  rfl

theorem strip_hexPadded (n : Nat) : Console.Linux.strip (hexPadded n) = hexPadded n := by
  have hspace : forall c, c ∈ hexPadded n -> Console.isSpace c = false :=
    fun c hc => isSpace_of_hexDigit (hexPadded_isHexDigit n c hc)
  have hfront : (hexPadded n).dropWhile Console.isSpace = hexPadded n :=
    Console.Netboot.dropWhile_head (fun c hc => hspace c (List.mem_of_head? hc))
  have hback : (hexPadded n).reverse.dropWhile Console.isSpace = (hexPadded n).reverse :=
    Console.Netboot.dropWhile_head
      (fun c hc => hspace c (List.mem_reverse.mp (List.mem_of_head? hc)))
  unfold Console.Linux.strip
  rw [hfront, hback, List.reverse_reverse]

theorem hexValue_toDigits (n : Nat) :
    (Nat.toDigits 16 n).foldl (fun v c => v * 16 + hexDigitValue c) 0 = n := by
  have hdigit : forall d, d < 16 -> hexDigitValue (Nat.digitChar d) = d := by
    decide
  induction n using Nat.strongRecOn with
  | ind n ih =>
      rw [Nat.toDigits_eq_if (by decide)]
      split
      case isTrue hsmall =>
          rw [List.foldl_cons, List.foldl_nil, hdigit n hsmall, Nat.zero_mul, Nat.zero_add]
      case isFalse hlarge =>
          rw [List.foldl_append, ih (n / 16) (Nat.div_lt_self (by omega) (by decide)),
            List.foldl_cons, List.foldl_nil, hdigit _ (Nat.mod_lt n (by decide))]
          omega

theorem hexValue_hexPadded (n : Nat) :
    (hexPadded n).foldl (fun v c => v * 16 + hexDigitValue c) 0 = n := by
  have hzeros : forall k, (List.replicate k '0').foldl
      (fun v c => v * 16 + hexDigitValue c) 0 = 0 := by
    intro k
    induction k with
    | zero => rfl
    | succ k ih => exact ih
  unfold hexPadded
  rw [List.foldl_append, hzeros, hexValue_toDigits]

theorem strtoul16_hexPadded (v : BitVec 32) : strtoul16 (hexPadded v.toNat) = some v := by
  have hsmall := v.isLt
  unfold strtoul16
  rw [if_pos (List.all_eq_true.mpr (hexPadded_isHexDigit _)), hexValue_hexPadded,
    Nat.min_eq_left (by omega), BitVec.ofNat_toNat, BitVec.setWidth_eq]

/-!
# The listing of an image
-/

theorem commandOutput_listing {f : HeaderFields} (hname : NoControl (nameText f)) {text : Text}
    (htext : utf8DecodeStrict (nameText f) = some text) (clock : HostClock) (size : BitVec 32)
    (components : List (BitVec 32 × BitVec 64)) :
    '\n' ∉ text ∧ commandOutput (imagePrintContents clock f size components) =
      some (chars "Image Name:   " ++ text ++ linesBehindName clock f size components) := by
  have hplain : forall c : Char, c ∈ text -> c.toNat < 0x20 -> False := by
    intro c hc hsmall
    have hmem := mem_utf8Encode hc (by omega)
    rw [utf8Encode_of_strict htext] at hmem
    have hbyte := (hname _ hmem).1
    rw [BitVec.toNat_ofNat] at hbyte
    omega
  rcases linesBehindName_lines clock f size components with ⟨type, sizes, contents, hlines⟩
  have hrest := hlines.plainLines
  have hlabel : Printable (chars "Image Name:   ") := printable_chars (by decide)
  refine ⟨fun hc => hplain '\n' hc (by decide), ?_⟩
  unfold commandOutput imagePrintContents
  rw [utf8DecodeStrict_between (plainLines_of_printable hlabel).sevenBit hrest.sevenBit, htext,
    Option.map_some, Option.map_some]
  congr 1
  refine Console.Netboot.universalNewlines_noReturn _ ?_
  intro hreturn
  rcases List.mem_append.mp hreturn with hfront | hback
  · rcases List.mem_append.mp hfront with hc | hc
    · exact absurd (hlabel _ hc) (by decide)
    · exact hplain '\r' hc (by decide)
  · rcases hrest _ hback with hc | hc
    · exact absurd hc (by decide)
    · exact absurd hc (by decide)

theorem no_feed {label : String} {line : Text}
    (hlabel : (chars label).all (fun c => 0x20 <= c.toNat && c.toNat < 0x7f) = true)
    (hline : Printable line) : '\n' ∉ chars label ++ line := by
  intro hmem
  exact absurd (printable_append (printable_chars hlabel) hline '\n' hmem) (by decide)

theorem hexGroup_none {label : String} {text : Text}
    (h : (chars label).isPrefixOf text = false) : hexGroup label text = none := by
  unfold hexGroup behindLabel
  rw [h]
  rfl

section Listing

variable {f : HeaderFields} {text created type size contents rest : Text}

theorem addresses_listing (hfeed : '\n' ∉ text)
    (hlines : ListingLines f created type size contents rest) :
    searchLines (hexGroup "Load Address:") (chars "Image Name:   " ++ text ++ rest) =
        some (hexPadded f.load.toNat) ∧
      searchLines (hexGroup "Entry Point:") (chars "Image Name:   " ++ text ++ rest) =
        some (hexPadded f.ep.toNat) := by
  have hname : '\n' ∉ chars "Image Name:   " ++ text := by
    intro hmem
    rcases List.mem_append.mp hmem with hc | hc
    · exact absurd hc (by decide)
    · exact hfeed hc
  have hcreated := no_feed (by decide : (chars "Created:      ").all _ = true) hlines.createdLine
  have htype := no_feed (by decide : (chars "Image Type:   ").all _ = true) hlines.typeLine
  have hsize := no_feed (by decide : (chars "Data Size:    ").all _ = true) hlines.sizeLine
  have hload := no_feed (by decide : (chars "Load Address: ").all _ = true)
    (printable_hexPadded f.load.toNat)
  rw [hlines.nested]
  constructor
  · rw [searchLines_skip hname (hexGroup_none rfl), searchLines_skip hcreated (hexGroup_none rfl),
      searchLines_skip htype (hexGroup_none rfl), searchLines_skip hsize (hexGroup_none rfl)]
    exact searchLines_hit (hexGroup_eq (by decide : ([] : Text).all Console.isSpace = true) _ _)
  · rw [searchLines_skip hname (hexGroup_none rfl), searchLines_skip hcreated (hexGroup_none rfl),
      searchLines_skip htype (hexGroup_none rfl), searchLines_skip hsize (hexGroup_none rfl),
      searchLines_skip hload (hexGroup_none rfl)]
    exact searchLines_hit (hexGroup_eq (by decide : [' '].all Console.isSpace = true) _ _)

theorem name_listing (hfeed : '\n' ∉ text)
    (hlines : ListingLines f created type size contents rest)
    (hblank : text.dropWhile Console.isSpace ≠ []) :
    searchLines nameGroup (chars "Image Name:   " ++ text ++ rest) =
      some (text.dropWhile Console.isSpace) := by
  have hrest : exists more, rest = '\n' :: more := ⟨_, hlines.lines⟩
  rcases hrest with ⟨more, rfl⟩
  exact searchLines_hit (nameGroup_eq hfeed hblank)

theorem blankName_listing (hlines : ListingLines f created type size contents rest)
    (hblank : text.dropWhile Console.isSpace = []) :
    searchLines nameGroup (chars "Image Name:   " ++ text ++ rest) =
      some (chars "Created:      " ++ created) := by
  have hspaces : forall c, c ∈ [' ', ' '] ++ text ++ ['\n'] -> Console.isSpace c = true := by
    intro c hc
    rcases List.mem_append.mp hc with hc | hc
    · rcases List.mem_append.mp hc with hc | hc
      · rw [List.mem_cons, List.mem_singleton, or_self] at hc
        rw [hc]
        decide
      · exact List.dropWhile_eq_nil_iff.mp hblank c hc
    · rw [List.mem_singleton.mp hc]
      decide
  have hcreated := no_feed (by decide : (chars "Created:      ").all _ = true) hlines.createdLine
  rw [hlines.nested]
  generalize (chars "Image Type:   " ++ type) ++ _ = more
  have hbehind : behindLabel "Image Name:" (chars "Image Name:   " ++ text ++
      '\n' :: ((chars "Created:      " ++ created) ++ '\n' :: more)) =
      some ((chars "Created:      " ++ created) ++ '\n' :: more) := by
    have hsplit : chars "Image Name:   " ++ text ++
        '\n' :: ((chars "Created:      " ++ created) ++ '\n' :: more) = chars "Image Name:" ++
          ' ' :: (([' ', ' '] ++ text ++ ['\n']) ++
            ((chars "Created:      " ++ created) ++ '\n' :: more)) := by
      simp only [List.append_assoc, List.cons_append, List.nil_append]
      rfl
    rw [hsplit, behindLabel_eq, List.dropWhile_append_of_pos hspaces]
    rfl
  refine searchLines_hit ?_
  unfold nameGroup
  rw [hbehind, Option.map_some, List.takeWhile_append_of_pos]
  · rw [List.takeWhile_cons_of_neg (by decide), List.append_nil]
  · intro c hc
    rw [bne_iff_ne]
    rintro rfl
    exact hcreated hc

end Listing

theorem strip_dropWhile (text : Text) :
    Console.Linux.strip (text.dropWhile Console.isSpace) = Console.Linux.strip text := by
  unfold Console.Linux.strip
  rw [List.dropWhile_idempotent]

theorem strip_infix (text : Text) : Console.Linux.strip text <:+: text := by
  have hback : Console.Linux.strip text <+: text.dropWhile Console.isSpace :=
    List.reverse_suffix.mp (by
      rw [Console.Linux.strip, List.reverse_reverse]
      exact List.dropWhile_suffix _)
  exact hback.isInfix.trans (List.dropWhile_suffix _).isInfix

theorem strip_ne_nil {text : Text} (h : Console.Linux.strip text ≠ []) :
    text.dropWhile Console.isSpace ≠ [] := by
  intro hnone
  rw [← strip_dropWhile, hnone] at h
  exact h rfl

theorem parseMkimageHeader_listing {f : HeaderFields}
    {text created type size contents rest : Text} (hfeed : '\n' ∉ text)
    (hlines : ListingLines f created type size contents rest)
    (hblank : Console.Linux.strip text ≠ []) :
    parseMkimageHeader (chars "Image Name:   " ++ text ++ rest) =
      some (Console.Linux.strip text, hexPadded f.load.toNat, hexPadded f.ep.toNat) := by
  rcases addresses_listing hfeed hlines with ⟨hload, hentry⟩
  unfold parseMkimageHeader
  rw [name_listing hfeed hlines (strip_ne_nil hblank), hload, hentry]
  dsimp only
  rw [strip_dropWhile, strip_hexPadded, strip_hexPadded]

theorem parseMkimageHeader_blankName {f : HeaderFields}
    {text created type size contents rest : Text} (hfeed : '\n' ∉ text)
    (hlines : ListingLines f created type size contents rest)
    (hblank : text.dropWhile Console.isSpace = []) :
    parseMkimageHeader (chars "Image Name:   " ++ text ++ rest) =
      some (Console.Linux.strip (chars "Created:      " ++ created), hexPadded f.load.toNat,
        hexPadded f.ep.toNat) := by
  rcases addresses_listing hfeed hlines with ⟨hload, hentry⟩
  unfold parseMkimageHeader
  rw [blankName_listing hlines hblank, hload, hentry]
  dsimp only
  rw [strip_hexPadded, strip_hexPadded]

/-!
# The image that is built
-/

theorem nameText_fields {params : MkimageParams} (hlength : params.imagename.length <= 32) :
    nameText params.fields = params.imagename := by
  have hfits : truncatedName params.imagename =
      params.imagename ++ List.replicate (32 - params.imagename.length) 0#8 := by
    unfold truncatedName
    rw [List.take_append, List.take_of_length_le hlength, List.take_replicate]
    congr 2
    omega
  show (truncatedName params.imagename).takeWhile (fun b => b != 0#8) = _
  rw [hfits, List.takeWhile_append_of_pos]
  · cases 32 - params.imagename.length with
    | zero => exact List.append_nil _
    | succ k => exact List.append_nil _
  · intro b hb
    rw [bne_iff_ne]
    rintro rfl
    exact params.imagenameText hb

/--
For every image whose name has no control characters, is text, and is not blank: the script reads
the name without the blanks around it, and both addresses as they are; the image that it builds
has these, and the name of the first image exactly when there are no blanks around it.
-/
theorem rewrap_header (clock : HostClock) (f : HeaderFields) (size : BitVec 32)
    (components : List (BitVec 32 × BitVec 64)) (mtime : BitVec 32)
    (hname : NoControl (nameText f)) (text : Text)
    (htext : utf8DecodeStrict (nameText f) = some text)
    (hblank : Console.Linux.strip text ≠ []) :
    (commandOutput (imagePrintContents clock f size components)).bind parseMkimageHeader =
      some (Console.Linux.strip text, hexPadded f.load.toNat, hexPadded f.ep.toNat) ∧
    exists params, buildLegacyCuimage mtime (Console.Linux.strip text) (hexPadded f.load.toNat)
        (hexPadded f.ep.toNat) = some params ∧
      params.fields.load = f.load ∧ params.fields.ep = f.ep ∧
      nameText params.fields = utf8Encode (Console.Linux.strip text) ∧
      (nameText params.fields = nameText f <-> Console.Linux.strip text = text) := by
  have hpart := strip_infix text
  have hbytes : utf8Encode (Console.Linux.strip text) <:+: nameText f := by
    rw [← utf8Encode_of_strict htext]
    exact infix_utf8Encode hpart
  have hzero : 0#8 ∉ utf8Encode (Console.Linux.strip text) := by
    intro hmem
    exact absurd (hname _ (hbytes.subset hmem)).1 (by decide)
  have hlength : (utf8Encode (Console.Linux.strip text)).length <= 32 := by
    have hshort := hbytes.length_le
    have hwhole : (nameText f).length <= f.name.length := (List.takeWhile_sublist _).length_le
    rw [f.nameLength] at hwhole
    omega
  rcases linesBehindName_lines clock f size components with ⟨type, sizes, contents, hlines⟩
  rcases commandOutput_listing hname htext clock size components with ⟨hfeed, houtput⟩
  refine ⟨?_, ?_⟩
  · rw [houtput]
    exact parseMkimageHeader_listing hfeed hlines hblank
  · unfold buildLegacyCuimage
    rw [strtoul16_hexPadded, strtoul16_hexPadded]
    dsimp only
    rw [dif_pos hzero]
    refine ⟨_, rfl, rfl, rfl, nameText_fields hlength, ?_⟩
    rw [nameText_fields hlength, ← utf8Encode_of_strict htext]
    exact ⟨eq_of_infix_utf8Encode hpart, fun hsame => congrArg utf8Encode hsame⟩

/-- An image with a name, and a host that has one time only. -/
def namedFields (name : List Byte) : HeaderFields where
  time := 0#32
  load := 0x400000#32
  ep := 0x4006b4#32
  os := osLinux
  arch := archPpc
  type := typeKernel
  comp := compGzip
  name := truncatedName name
  nameLength := by simp [truncatedName]

def stoppedClock : HostClock where
  line := fun _ => chars "Thu Jan  1 00:00:00 1970"
  printable := fun _ => printable_chars (by decide)

/-- Blanks around a name are lost, and a name that is not text cannot be read. -/
theorem rewrap_changed :
    (NoControl (nameText (namedFields (ascii " Linux 6.6"))) ∧
      utf8DecodeStrict (nameText (namedFields (ascii " Linux 6.6"))) =
        some (chars " Linux 6.6") ∧
      (commandOutput (imagePrintContents stoppedClock (namedFields (ascii " Linux 6.6")) 0#32
        [])).bind parseMkimageHeader =
        some (chars "Linux 6.6", chars "00400000", chars "004006b4")) ∧
    NoControl (nameText (namedFields [0x4c#8, 0xff#8])) ∧
      commandOutput (imagePrintContents stoppedClock (namedFields [0x4c#8, 0xff#8]) 0#32 []) =
        none := by
  refine ⟨⟨by decide +kernel, by decide +kernel, by decide +kernel⟩, by decide +kernel,
    by decide +kernel⟩

/-- A name with blanks around it. -/
theorem rewrap_header_blanks :
    (commandOutput (imagePrintContents stoppedClock (namedFields (ascii " Linux 6.6")) 0#32
        [])).bind parseMkimageHeader =
      some (Console.Linux.strip (chars " Linux 6.6"),
        hexPadded (namedFields (ascii " Linux 6.6")).load.toNat,
        hexPadded (namedFields (ascii " Linux 6.6")).ep.toNat) ∧
    exists params, buildLegacyCuimage 0#32 (Console.Linux.strip (chars " Linux 6.6"))
        (hexPadded (namedFields (ascii " Linux 6.6")).load.toNat)
        (hexPadded (namedFields (ascii " Linux 6.6")).ep.toNat) = some params ∧
      params.fields.load = (namedFields (ascii " Linux 6.6")).load ∧
      params.fields.ep = (namedFields (ascii " Linux 6.6")).ep ∧
      nameText params.fields = utf8Encode (Console.Linux.strip (chars " Linux 6.6")) ∧
      (nameText params.fields = nameText (namedFields (ascii " Linux 6.6")) <->
        Console.Linux.strip (chars " Linux 6.6") = chars " Linux 6.6") :=
  rewrap_header stoppedClock (namedFields (ascii " Linux 6.6")) 0#32 [] 0#32
    (by decide +kernel) (chars " Linux 6.6") (by decide +kernel) (by decide +kernel)

end Staging
end Bab750
