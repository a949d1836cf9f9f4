import Bab750.Console.LinuxMarkers
import Bab750.Console.Protocol

/-!
# The commands of a network boot

`build_bootargs` and `write_uboot_commands` of `bab750_prepare_legacy_linux_netboot.py`,
and how `load_commands_file` of `bab750_boot_legacy_linux.py` reads the file back.
-/

namespace Bab750
namespace Console
namespace Netboot

open Foundation
open Linux

/-!
# The script
-/

/-- The fields of the namespace that the commands are built from. -/
structure NetbootArgs where
  serverIp : Text
  clientIp : Text
  netmask : Text
  gateway : Text
  nfsroot : Text
  interface : Text
  kernelLoadAddress : Text

def defaultInterface : Text := chars "eth0"

def NetbootArgs.device (args : NetbootArgs) : Text :=
  if args.interface.isEmpty then defaultInterface else args.interface

def NetbootArgs.ipConfig (args : NetbootArgs) : Text :=
  args.clientIp ++ chars ":" ++ args.serverIp ++ chars ":" ++ args.gateway ++ chars ":" ++
    args.netmask ++ chars "::" ++ args.device ++ chars ":off"

def buildBootargs (args : NetbootArgs) : Text :=
  chars "console=ttyS0,9600 " ++ chars "root=/dev/nfs " ++
    (chars "nfsroot=" ++ args.serverIp ++ chars ":" ++ args.nfsroot ++ chars ",vers=4 ") ++
    (chars "ip=" ++ args.ipConfig)

def cleanupVars : List Text :=
  [chars "bootcmd", chars "bootfile", chars "fileaddr", chars "filesize",
    chars "gatewayip", chars "hostname", chars "rootpath", chars "bootargs",
    chars "netmask", chars "ipaddr", chars "serverip"]

def settingCommands (args : NetbootArgs) : List Text :=
  cleanupVars.map (fun name => chars "setenv " ++ name) ++
    [chars "setenv serverip " ++ args.serverIp, chars "setenv ipaddr " ++ args.clientIp,
      chars "setenv netmask " ++ args.netmask] ++
    (if args.gateway.isEmpty then [] else [chars "setenv gatewayip " ++ args.gateway]) ++
    [chars "setenv bootargs '" ++ buildBootargs args ++ chars "'"]

def tftpbootCommand (args : NetbootArgs) (image : Text) : Text :=
  chars "tftpboot " ++ args.kernelLoadAddress ++ chars " " ++ image

def bootmCommand (args : NetbootArgs) : Text :=
  chars "bootm " ++ args.kernelLoadAddress

/-- `commands`, with `kernel_image.name`. -/
def ubootCommands (args : NetbootArgs) (image : Text) : List Text :=
  settingCommands args ++ [tftpbootCommand args image, bootmCommand args]

def writeUbootCommands (args : NetbootArgs) (image : Text) : Text :=
  ['\n'].intercalate (ubootCommands args image) ++ ['\n']

/-!
# What the fields consist of
-/

def IsAddress (text : Text) : Prop := forall c, c ∈ text -> c.isDigit = true ∨ c = '.'

def IsName (text : Text) : Prop :=
  forall c, c ∈ text -> c.isAlphanum = true ∨ c = '.' ∨ c = '-' ∨ c = '_'

/-- Printable characters other than the space and the single quote. -/
def IsUnquoted (text : Text) : Prop :=
  forall c, c ∈ text -> IsPlain c ∧ c ≠ ' ' ∧ c ≠ '\''

instance (text : Text) : Decidable (IsAddress text) :=
  List.decidableBAll (fun c : Char => c.isDigit = true ∨ c = '.') text

instance (text : Text) : Decidable (IsName text) :=
  List.decidableBAll (fun c : Char => c.isAlphanum = true ∨ c = '.' ∨ c = '-' ∨ c = '_') text

instance (text : Text) : Decidable (IsUnquoted text) :=
  List.decidableBAll (fun c => IsPlain c ∧ c ≠ ' ' ∧ c ≠ '\'') text

structure WellTyped (args : NetbootArgs) (image : Text) : Prop where
  serverIp : IsAddress args.serverIp
  clientIp : IsAddress args.clientIp
  netmask : IsAddress args.netmask
  gateway : IsAddress args.gateway
  nfsroot : IsUnquoted args.nfsroot
  interface : IsUnquoted args.interface
  loadAddress : IsName args.kernelLoadAddress
  image : IsName image

/-- The fields that stand at the end of a line are not empty. -/
structure Complete (args : NetbootArgs) (image : Text) : Prop where
  serverIp : args.serverIp ≠ []
  clientIp : args.clientIp ≠ []
  netmask : args.netmask ≠ []
  loadAddress : args.kernelLoadAddress ≠ []
  image : image ≠ []

theorem isUnquoted_of_bounds {text : Text}
    (h : forall c, c ∈ text -> 32 < c.toNat ∧ c.toNat < 127 ∧ c.toNat ≠ 39) :
    IsUnquoted text := by
  intro c hc
  rcases h c hc with ⟨hlow, hhigh, hquote⟩
  refine ⟨⟨Nat.le_of_lt hlow, hhigh⟩, ?_, ?_⟩
  · rintro rfl
    exact absurd hlow (by decide)
  · rintro rfl
    exact hquote rfl

theorem isDigit_bounds {c : Char} (h : c.isDigit = true) : 48 <= c.toNat ∧ c.toNat <= 57 := by
  unfold Char.isDigit at h
  simpa [UInt32.le_iff_toNat_le] using h

theorem isAlphanum_bounds {c : Char} (h : c.isAlphanum = true) :
    (65 <= c.toNat ∧ c.toNat <= 90) ∨ (97 <= c.toNat ∧ c.toNat <= 122) ∨
      (48 <= c.toNat ∧ c.toNat <= 57) := by
  unfold Char.isAlphanum Char.isAlpha Char.isUpper Char.isLower at h
  simp only [Bool.or_eq_true, Bool.and_eq_true, decide_eq_true_eq, UInt32.le_iff_toNat_le] at h
  rcases h with (h | h) | h
  · exact Or.inl h
  · exact Or.inr (Or.inl h)
  · exact Or.inr (Or.inr (isDigit_bounds h))

theorem IsAddress.unquoted {text : Text} (h : IsAddress text) : IsUnquoted text := by
  apply isUnquoted_of_bounds
  intro c hc
  rcases h c hc with hdigit | rfl
  · have hbounds := isDigit_bounds hdigit
    omega
  · decide

theorem IsName.unquoted {text : Text} (h : IsName text) : IsUnquoted text := by
  apply isUnquoted_of_bounds
  intro c hc
  rcases h c hc with halnum | rfl | rfl | rfl
  · have hbounds := isAlphanum_bounds halnum
    omega
  · decide
  · decide
  · decide

theorem IsUnquoted.append {first second : Text} (hfirst : IsUnquoted first)
    (hsecond : IsUnquoted second) : IsUnquoted (first ++ second) := by
  intro c hc
  rcases List.mem_append.mp hc with hc | hc
  · exact hfirst c hc
  · exact hsecond c hc

/-!
# Reading the file back
-/

structure FileLine (line : Text) : Prop where
  chars : forall c, c ∈ line -> IsPlain c
  nonempty : line ≠ []
  first : line.head? ≠ some ' ' ∧ line.head? ≠ some '#'
  last : line.getLast? ≠ some ' '

theorem isLineBreak_plain {c : Char} (h : IsPlain c) : isLineBreak c = false := by
  rcases h with ⟨hlow, hhigh⟩
  unfold isLineBreak
  simp only [Bool.or_eq_false_iff, Bool.and_eq_false_iff, decide_eq_false_iff_not,
    beq_eq_false_iff_ne]
  omega

theorem isSpace_plain {c : Char} (h : IsPlain c) (hspace : c ≠ ' ') : isSpace c = false := by
  rcases h with ⟨hlow, hhigh⟩
  have hc : c.toNat ≠ 32 := fun heq => hspace (Char.toNat_inj.mp heq)
  unfold isSpace
  simp only [Bool.or_eq_false_iff, Bool.and_eq_false_iff, decide_eq_false_iff_not,
    beq_eq_false_iff_ne]
  omega

theorem universalNewlines_noReturn (content : Text) (h : '\r' ∉ content) :
    universalNewlines content = content := by
  induction content with
  | nil =>
      rfl
  | cons c content ih =>
      have hc : c ≠ '\r' := by
        rintro rfl
        exact h List.mem_cons_self
      have hrest := ih (fun hmem => h (List.mem_cons_of_mem c hmem))
      unfold universalNewlines
      split
      case h_1 heq =>
          cases heq
      case h_2 heq =>
          exact absurd (List.cons.inj heq).left hc
      case h_3 heq =>
          rcases List.cons.inj heq with ⟨rfl, rfl⟩
          rw [if_neg hc, hrest]

theorem splitLinesFrom_line (line : Text) (hline : forall c, c ∈ line -> IsPlain c)
    (front rest : Text) :
    splitLinesFrom front (line ++ '\n' :: rest) =
      (front ++ line) :: splitLinesFrom [] rest := by
  induction line generalizing front with
  | nil =>
      rw [List.append_nil]
      exact if_pos (by decide)
  | cons c line ih =>
      have hc := isLineBreak_plain (hline c List.mem_cons_self)
      rw [List.cons_append, splitLinesFrom, hc, if_neg (by decide),
        ih (fun d hd => hline d (List.mem_cons_of_mem c hd)),
        List.append_assoc, List.singleton_append]

theorem intercalate_lines (lines : List Text) (hlines : lines ≠ []) :
    ['\n'].intercalate lines ++ ['\n'] = lines.flatMap (fun line => line ++ ['\n']) := by
  induction lines with
  | nil =>
      exact absurd rfl hlines
  | cons line lines ih =>
      cases lines with
      | nil =>
          simp [List.intercalate]
      | cons next lines =>
          have hrest := ih (List.cons_ne_nil next lines)
          rw [List.flatMap_cons, ← hrest]
          simp [List.intercalate]

theorem splitLinesFrom_lines (lines : List Text)
    (hlines : forall line, line ∈ lines -> FileLine line) :
    splitLinesFrom [] (lines.flatMap (fun line => line ++ ['\n'])) = lines := by
  induction lines with
  | nil =>
      rfl
  | cons line lines ih =>
      rw [List.flatMap_cons, List.append_assoc, List.singleton_append,
        splitLinesFrom_line line (hlines line List.mem_cons_self).chars,
        ih (fun l hl => hlines l (List.mem_cons_of_mem line hl)), List.nil_append]

theorem dropWhile_head {p : Char -> Bool} {text : Text}
    (h : forall c, text.head? = some c -> p c = false) : text.dropWhile p = text := by
  cases text with
  | nil =>
      rfl
  | cons c text =>
      rw [List.dropWhile_cons_of_neg]
      rw [h c rfl]
      decide

theorem FileLine.strip {line : Text} (h : FileLine line) : strip line = line := by
  have hfront : line.dropWhile isSpace = line := by
    apply dropWhile_head
    intro c hc
    refine isSpace_plain (h.chars c (List.mem_of_head? hc)) ?_
    rintro rfl
    exact h.first.left hc
  have hback : line.reverse.dropWhile isSpace = line.reverse := by
    apply dropWhile_head
    intro c hc
    rw [List.head?_reverse] at hc
    refine isSpace_plain (h.chars c (List.mem_of_getLast? hc)) ?_
    rintro rfl
    exact h.last hc
  unfold Linux.strip
  rw [hfront, hback, List.reverse_reverse]

theorem commandLines_written (lines : List Text) (hsome : lines ≠ [])
    (hlines : forall line, line ∈ lines -> FileLine line) :
    Linux.commandLines (['\n'].intercalate lines ++ ['\n']) = lines := by
  have hnewlines : '\r' ∉ lines.flatMap (fun line => line ++ ['\n']) := by
    intro hmem
    rcases List.mem_flatMap.mp hmem with ⟨line, hline, hmem⟩
    rcases List.mem_append.mp hmem with hmem | hmem
    · exact absurd ((hlines line hline).chars _ hmem) (by decide)
    · exact absurd hmem (by decide)
  have hstrip : lines.map Linux.strip = lines := by
    rw [List.map_congr_left (fun line hline => (hlines line hline).strip), List.map_id']
  unfold Linux.commandLines fileLines
  rw [intercalate_lines lines hsome, universalNewlines_noReturn _ hnewlines,
    splitLinesFrom_lines lines hlines, hstrip, List.filter_eq_self]
  intro line hline
  have h := hlines line hline
  cases line with
  | nil =>
      exact absurd rfl h.nonempty
  | cons c line =>
      have hc : ('#' == c) = false := by
        refine beq_eq_false_iff_ne.mpr ?_
        rintro rfl
        exact h.first.right rfl
      show (true && !(('#' == c) && ([] : Text).isPrefixOf line)) = true
      rw [hc]
      rfl

/-!
# The written lines
-/

theorem IsUnquoted.plain {text : Text} (h : IsUnquoted text) {c : Char} (hc : c ∈ text) :
    IsPlain c :=
  (h c hc).left

theorem IsUnquoted.last {text : Text} (h : IsUnquoted text) :
    text.getLast? ≠ some ' ' := by
  intro hlast
  exact (h _ (List.mem_of_getLast? hlast)).right.left rfl

structure FileFront (front : Text) : Prop where
  chars : forall c, c ∈ front -> IsPlain c
  first : exists c rest, front = c :: rest ∧ c ≠ ' ' ∧ c ≠ '#'

theorem FileFront.append {front text : Text} (h : FileFront front)
    (htext : forall c, c ∈ text -> IsPlain c) : FileFront (front ++ text) := by
  rcases h.first with ⟨c, rest, rfl, hc⟩
  refine ⟨?_, c, rest ++ text, rfl, hc⟩
  intro d hd
  rcases List.mem_append.mp hd with hd | hd
  · exact h.chars d hd
  · exact htext d hd

theorem FileFront.line {front field : Text} (h : FileFront front)
    (hfield : forall c, c ∈ field -> IsPlain c) (hsome : field ≠ [])
    (hlast : field.getLast? ≠ some ' ') : FileLine (front ++ field) := by
  have hall := h.append hfield
  rcases h.first with ⟨c, rest, hfront, hspace, hhash⟩
  have hhead : (front ++ field).head? = some c := by
    rw [hfront]
    rfl
  refine ⟨hall.chars, List.append_ne_nil_of_right_ne_nil _ hsome, ?_, ?_⟩
  · rw [hhead]
    exact ⟨fun heq => hspace (Option.some.inj heq), fun heq => hhash (Option.some.inj heq)⟩
  · rw [List.getLast?_append, List.getLast?_eq_some_getLast hsome, Option.some_or,
      ← List.getLast?_eq_some_getLast hsome]
    exact hlast

theorem FileFront.field {front field : Text} (h : FileFront front)
    (hfield : IsUnquoted field) (hsome : field ≠ []) : FileLine (front ++ field) :=
  h.line (fun _ hc => hfield.plain hc) hsome hfield.last

theorem isPlain_of_all {text : Text} (h : text.all (fun c => decide (IsPlain c)) = true) :
    forall c, c ∈ text -> IsPlain c := by
  intro c hc
  exact of_decide_eq_true (List.all_eq_true.mp h c hc)

theorem fileFront_literal {c : Char} {rest : Text}
    (hchars : (c :: rest).all (fun d => decide (IsPlain d)) = true)
    (hfirst : c ≠ ' ' ∧ c ≠ '#') : FileFront (c :: rest) :=
  ⟨isPlain_of_all hchars, c, rest, rfl, hfirst⟩

instance (line : Text) : Decidable (FileLine line) :=
  decidable_of_iff (line.all (fun c => decide (IsPlain c)) = true ∧ line ≠ [] ∧
      (line.head? ≠ some ' ' ∧ line.head? ≠ some '#') ∧ line.getLast? ≠ some ' ')
    ⟨fun h => ⟨isPlain_of_all h.1, h.2.1, h.2.2.1, h.2.2.2⟩,
      fun h => ⟨by simpa using h.chars, h.nonempty, h.first, h.last⟩⟩

def NetbootArgs.rootWord (args : NetbootArgs) : Text :=
  chars "nfsroot=" ++ args.serverIp ++ chars ":" ++ args.nfsroot ++ chars ",vers=4"

def NetbootArgs.ipWord (args : NetbootArgs) : Text := chars "ip=" ++ args.ipConfig

/-- The words of `build_bootargs`. -/
def bootargWords (args : NetbootArgs) : List Text :=
  [chars "console=ttyS0,9600", chars "root=/dev/nfs", args.rootWord, args.ipWord]

theorem buildBootargs_words (args : NetbootArgs) :
    buildBootargs args = [' '].intercalate (bootargWords args) := by
  unfold buildBootargs bootargWords NetbootArgs.rootWord NetbootArgs.ipWord
  simp only [List.intercalate, List.intersperse, List.flatten_cons, List.flatten_nil,
    List.append_nil, List.append_assoc]
  rfl

theorem isUnquoted_device {args : NetbootArgs} (h : IsUnquoted args.interface) :
    IsUnquoted args.device := by
  unfold NetbootArgs.device
  split
  · decide
  · exact h

theorem isUnquoted_bootargWords {args : NetbootArgs} {image : Text}
    (h : WellTyped args image) {word : Text} (hword : word ∈ bootargWords args) :
    IsUnquoted word := by
  have hserver := h.serverIp.unquoted
  have hdevice := isUnquoted_device h.interface
  have hcolon : IsUnquoted (chars ":") := by decide
  have hroot : IsUnquoted args.rootWord :=
    ((((show IsUnquoted (chars "nfsroot=") by decide).append hserver).append hcolon).append
      h.nfsroot).append (by decide)
  have hconfig : IsUnquoted args.ipConfig :=
    ((((((((h.clientIp.unquoted.append hcolon).append hserver).append hcolon).append
      h.gateway.unquoted).append hcolon).append h.netmask.unquoted).append
        (show IsUnquoted (chars "::") by decide)).append hdevice).append (by decide)
  simp only [bootargWords, List.mem_cons, List.not_mem_nil, or_false] at hword
  rcases hword with rfl | rfl | rfl | rfl
  · decide
  · decide
  · exact hroot
  · exact (show IsUnquoted (chars "ip=") by decide).append hconfig

theorem buildBootargs_chars {args : NetbootArgs} {image : Text} (h : WellTyped args image)
    {c : Char} (hc : c ∈ buildBootargs args) : IsPlain c ∧ c ≠ '\'' := by
  rw [buildBootargs_words] at hc
  simp only [bootargWords, List.intercalate, List.intersperse, List.flatten_cons,
    List.flatten_nil, List.append_nil, List.mem_append, List.mem_singleton] at hc
  have hspace : IsPlain ' ' ∧ ' ' ≠ '\'' := by decide
  have hword : forall word, word ∈ bootargWords args -> c ∈ word ->
      IsPlain c ∧ c ≠ '\'' := by
    intro word hword hc
    have hall := isUnquoted_bootargWords h hword c hc
    exact ⟨hall.left, hall.right.right⟩
  rcases hc with hc | rfl | hc | rfl | hc | rfl | hc
  · exact hword _ (by simp [bootargWords]) hc
  · exact hspace
  · exact hword _ (by simp [bootargWords]) hc
  · exact hspace
  · exact hword _ (by simp [bootargWords]) hc
  · exact hspace
  · exact hword _ (by simp [bootargWords]) hc

theorem fileLine_ubootCommands {args : NetbootArgs} {image : Text}
    (h : WellTyped args image) (hsome : Complete args image) {line : Text}
    (hline : line ∈ ubootCommands args image) : FileLine line := by
  have hcleanup : forall name, name ∈ cleanupVars -> FileLine (chars "setenv " ++ name) := by
    decide
  simp only [ubootCommands, settingCommands, List.mem_append, List.mem_cons,
    List.not_mem_nil, or_false] at hline
  rcases hline with (((hline | rfl | rfl | rfl) | hline) | rfl) | rfl | rfl
  · rcases List.mem_map.mp hline with ⟨name, hname, rfl⟩
    exact hcleanup name hname
  · exact (fileFront_literal (by decide) (by decide)).field h.serverIp.unquoted hsome.serverIp
  · exact (fileFront_literal (by decide) (by decide)).field h.clientIp.unquoted hsome.clientIp
  · exact (fileFront_literal (by decide) (by decide)).field h.netmask.unquoted hsome.netmask
  · split at hline
    case isTrue =>
        exact absurd hline List.not_mem_nil
    case isFalse hgateway =>
        rw [List.mem_singleton.mp hline]
        refine (fileFront_literal (by decide) (by decide)).field h.gateway.unquoted ?_
        intro heq
        exact hgateway (by rw [heq]; rfl)
  · have hfront : FileFront (chars "setenv bootargs '" ++ buildBootargs args) :=
      (fileFront_literal (by decide) (by decide)).append
        (fun c hc => (buildBootargs_chars h hc).left)
    exact hfront.line (isPlain_of_all (by decide)) (by decide) (by decide)
  · have hfront : FileFront (chars "tftpboot " ++ args.kernelLoadAddress) :=
      (fileFront_literal (by decide) (by decide)).append
        (fun c hc => h.loadAddress.unquoted.plain hc)
    exact (hfront.append (isPlain_of_all (by decide))).field h.image.unquoted hsome.image
  · exact (fileFront_literal (by decide) (by decide)).field h.loadAddress.unquoted
      hsome.loadAddress

theorem loadCommandsFile_written {args : NetbootArgs} {image : Text}
    (h : WellTyped args image) (hsome : Complete args image) (path : Text) :
    loadCommandsFile path (some (writeUbootCommands args image)) =
      .ok (ubootCommands args image) := by
  have hlines : Linux.commandLines (writeUbootCommands args image) =
      ubootCommands args image :=
    commandLines_written _ (by simp [ubootCommands])
      (fun _ hline => fileLine_ubootCommands h hsome hline)
  have hlast : (ubootCommands args image).getLast? = some (bootmCommand args) := by
    unfold ubootCommands
    simp
  unfold loadCommandsFile
  simp only [hlines, hlast]
  refine if_pos ?_
  rw [List.isPrefixOf_iff_prefix]
  exact List.prefix_append _ _

end Netboot
end Console
end Bab750
