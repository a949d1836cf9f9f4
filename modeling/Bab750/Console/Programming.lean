import Bab750.Console.Acceptance
import Bab750.Console.Replies
import Bab750.Flash.Copy
import Bab750.Flash.Protection

/-!
# What a successful run has programmed

`validate_flash_programming` looks for two messages in the replies, and the board has more
ways to fail.  A run of the flash script that returns has left the downloaded bytes in the
flash, if the board lets the copy through up to the check of its words.
-/

namespace Bab750
namespace Console

open Foundation
open Command
open Flash
open Support (simpleStrtoul hexBytes simpleStrtoul_hexBytes)

/-!
# The length of the copy is a word
-/

structure HexNumber (text : Text) : Prop where
  nonempty : text ≠ []
  digits : forall c, c ∈ text -> isHexDigit c = true

theorem hexDigit_facts {c : Char} (h : isHexDigit c = true) :
    isHexDigit c.toLower = true ∧ isOrdinary (BitVec.ofNat 8 c.toNat) = true ∧
      isBlank (BitVec.ofNat 8 c.toNat) = false := by
  have hall : forall n, n < 128 -> isHexDigit (Char.ofNat n) = true ->
      isHexDigit (Char.ofNat n).toLower = true ∧
        isOrdinary (BitVec.ofNat 8 (Char.ofNat n).toNat) = true ∧
          isBlank (BitVec.ofNat 8 (Char.ofNat n).toNat) = false := by
    decide
  have hsmall : c.toNat < 128 := by
    have hrange := h
    unfold isHexDigit at hrange
    simp only [Bool.or_eq_true, Bool.and_eq_true, decide_eq_true_eq, Char.le_def,
      UInt32.le_iff_toNat_le] at hrange
    change (48 <= c.toNat ∧ c.toNat <= 57 ∨ 97 <= c.toNat ∧ c.toNat <= 102) ∨
      65 <= c.toNat ∧ c.toNat <= 70 at hrange
    omega
  have hc := hall c.toNat hsmall
  rw [Char.ofNat_toNat] at hc
  exact hc h

theorem HexNumber.lower {text : Text} (h : HexNumber text) :
    HexNumber (text.map Char.toLower) := by
  refine ⟨fun hnil => h.nonempty (List.map_eq_nil_iff.mp hnil), ?_⟩
  intro c hc
  rcases List.mem_map.mp hc with ⟨d, hd, rfl⟩
  exact (hexDigit_facts (h.digits d hd)).left

theorem HexNumber.word {text : Text} (h : HexNumber text) : PlainWord (bytesOf text) := by
  refine ⟨fun hnil => h.nonempty (List.map_eq_nil_iff.mp hnil), ?_⟩
  intro b hb
  rcases List.mem_map.mp hb with ⟨c, hc, rfl⟩
  exact (hexDigit_facts (h.digits c hc)).right

theorem hexNumber_hexText (n : Nat) : HexNumber (hexText n) :=
  ⟨toDigits_ne_nil 16 n (by decide), hexText_isHexDigit n⟩

theorem hexNumber_tftpSizeAt {text hex rest : Text} (h : tftpSizeAt text = some (hex, rest)) :
    HexNumber hex := by
  unfold tftpSizeAt at h
  simp only [Option.bind_eq_bind] at h
  rcases Option.bind_eq_some_iff.mp h with ⟨number, _, h⟩
  rcases Option.bind_eq_some_iff.mp h with ⟨group, _, h⟩
  rcases Option.bind_eq_some_iff.mp h with ⟨final, _, h⟩
  split at h
  · cases h
  case isFalse hsome =>
      have hhex : group.takeWhile isHexDigit = hex :=
        (Prod.mk.inj (Option.some.inj h)).left
      rw [Bool.not_eq_true, Bool.or_eq_false_iff, List.isEmpty_eq_false_iff,
        List.isEmpty_eq_false_iff] at hsome
      rw [← hhex]
      exact ⟨hsome.right, List.all_eq_true.mp List.all_takeWhile⟩

theorem hexNumber_tftpSizesFrom {fuel : Nat} {text : Text} :
    forall hex, hex ∈ tftpSizesFrom fuel text -> HexNumber hex := by
  induction fuel generalizing text with
  | zero =>
      intro hex hmem
      exact absurd hmem List.not_mem_nil
  | succ fuel ih =>
      intro hex hmem
      unfold tftpSizesFrom at hmem
      split at hmem
      case h_1 first rest hat =>
          cases hmem with
          | head =>
              exact hexNumber_tftpSizeAt hat
          | tail _ hmem =>
              exact ih hex hmem
      case h_2 =>
          split at hmem
          · exact absurd hmem List.not_mem_nil
          · exact ih hex hmem

theorem hexNumber_copyLength (args : Args) (output : Text) :
    HexNumber (copyLength args output) := by
  unfold copyLength
  split
  case h_1 hex hlast =>
      exact (hexNumber_tftpSizesFrom hex (List.mem_of_getLast? hlast)).lower
  case h_2 =>
      exact hexNumber_hexText args.artifactSize

/-!
# The commands of the cycle
-/

structure PlainAddresses (args : Args) : Prop where
  load : PlainWord (bytesOf args.loadAddress)
  start : PlainWord (bytesOf args.flashStart)
  stop : PlainWord (bytesOf args.flashEnd)

/-- What `simple_strtoul` reads in a word of the script. -/
def strtoulHex (text : Text) : BitVec 32 := (simpleStrtoul (bytesOf text) 16).1

/-- A typed line of plain words: what its command makes of the board, and the reply. -/
theorem ranCommand_typed {S : Type} {set : CommandSet S} {line : Text} {name : List Byte}
    {rest : List (List Byte)} {entry : Entry S} (hcommand : PlainCommand line)
    (hline : bytesOf line = joinWords (name :: rest))
    (hplain : forall word, word ∈ name :: rest -> PlainWord word)
    (hargs : (name :: rest).length <= maxArgs) (hentry : findCmd set.table name = some entry)
    (hmax : (name :: rest).length <= entry.maxargs) (hbootd : entry.isBootd = false)
    (m : Monitor S) :
    (ranCommand (commandShell set) m line).shell =
        (entry.cmd m.shell ⟨false, false⟩ (name :: rest)).state ∧
      replyText (commandShell set) m line =
        line ++ (puts ['\r', '\n'] ++
          puts (entry.cmd m.shell ⟨false, false⟩ (name :: rest)).output ++ puts prompt) := by
  have hlength : line.length < cbSize := Nat.lt_of_le_of_lt hcommand.length (by decide)
  have hran := commandShell_words set m.shell hline hplain hargs hlength hentry hmax hbootd
  unfold ranCommand replyText
  rw [hran]
  exact ⟨rfl, rfl⟩

section Commands

variable {E : Type} {chip : Chip} {set : CommandSet (Flash.Board E)} {args : Args}

/-- The words of `protect off`. -/
def protectWords (args : Args) : List (List Byte) :=
  [ascii "protect", ascii "off", bytesOf args.flashStart, bytesOf args.flashEnd]

def eraseWords (args : Args) : List (List Byte) :=
  [ascii "erase", bytesOf args.flashStart, bytesOf args.flashEnd]

def copyWords (args : Args) (length : Text) : List (List Byte) :=
  [ascii "cp.b", bytesOf args.loadAddress, bytesOf args.flashStart, bytesOf length]

theorem protectOff_runs (hset : FlashSet chip set) (hwords : PlainAddresses args)
    (hcommand : PlainCommand (protectOff args)) (m : Monitor (Flash.Board E)) :
    (ranCommand (commandShell set) m (protectOff args)).shell =
      (doProtect m.shell (protectWords args)).board := by
  have hline : bytesOf (protectOff args) = joinWords (protectWords args) := by
    simp [protectOff, protectWords, bytesOf, joinWords, ascii, chars]
  have hprotect : PlainWord (ascii "protect") := ⟨by decide, by decide⟩
  have hoff : PlainWord (ascii "off") := ⟨by decide, by decide⟩
  have hplain : forall word, word ∈ protectWords args -> PlainWord word := by
    simp [protectWords, hprotect, hoff, hwords.start, hwords.stop]
  exact (ranCommand_typed hcommand hline hplain (show 4 <= 16 by decide) hset.protect
    (show 4 <= 4 by decide) rfl m).left

theorem eraseFlash_runs (hset : FlashSet chip set) (hwords : PlainAddresses args)
    (hcommand : PlainCommand (eraseFlash args)) (m : Monitor (Flash.Board E)) :
    (ranCommand (commandShell set) m (eraseFlash args)).shell =
      (doFlerase chip m.shell (eraseWords args)).board := by
  have hline : bytesOf (eraseFlash args) = joinWords (eraseWords args) := by
    simp [eraseFlash, eraseWords, bytesOf, joinWords, ascii, chars]
  have herase : PlainWord (ascii "erase") := ⟨by decide, by decide⟩
  have hplain : forall word, word ∈ eraseWords args -> PlainWord word := by
    simp [eraseWords, herase, hwords.start, hwords.stop]
  exact (ranCommand_typed hcommand hline hplain (show 3 <= 16 by decide) hset.erase
    (show 3 <= 3 by decide) rfl m).left

theorem copyToFlash_runs (hset : FlashSet chip set) (hwords : PlainAddresses args)
    {length : Text} (hnumber : HexNumber length)
    (hcommand : PlainCommand (copyToFlash args length)) (m : Monitor (Flash.Board E)) :
    (ranCommand (commandShell set) m (copyToFlash args length)).shell =
        (doMemCp chip m.shell (copyWords args length)).board ∧
      replyText (commandShell set) m (copyToFlash args length) =
        copyToFlash args length ++ (puts ['\r', '\n'] ++
          puts (doMemCp chip m.shell (copyWords args length)).output ++ puts prompt) := by
  have hline : bytesOf (copyToFlash args length) = joinWords (copyWords args length) := by
    simp [copyToFlash, copyWords, bytesOf, joinWords, ascii, chars]
  have hcopy : PlainWord (ascii "cp.b") := ⟨by decide, by decide⟩
  have hplain : forall word, word ∈ copyWords args length -> PlainWord word := by
    simp [copyWords, hcopy, hwords.load, hwords.start, hnumber.word]
  exact ranCommand_typed hcommand hline hplain (show 4 <= 16 by decide) hset.copy
    (show 4 <= 4 by decide) rfl m

end Commands

/-!
# What the script sees
-/

theorem local_flashNotErasedRe : Pattern.Local flashNotErasedRe :=
  ⟨Pattern.local_literal _ _, trivial, Pattern.local_literal _ _, trivial⟩

theorem notErasedReport_found (front back : Text) :
    flashOutputHasNotErasedError (front ++ (puts notErasedReport ++ back)) = true := by
  have hpart : puts notErasedReport <:+: front ++ (puts notErasedReport ++ back) :=
    ⟨front, back, by rw [List.append_assoc]⟩
  exact Pattern.found_of_within local_flashNotErasedRe hpart (by decide)

/-!
# The last cycle
-/

section Cycle

variable {E : Type}

/-- The number of bytes that `cp.b` is asked for. -/
def copyCount (shell : Shell (Flash.Board E)) (m : Monitor (Flash.Board E)) (args : Args) :
    BitVec 32 :=
  strtoulHex (copyLength args (replyText shell
    (ranCommands shell m [setenvServerip args, setenvIpaddr args]) (tftpboot args)))

/--
The copy of the last cycle is let through up to the check of its words, and what it copies
lies outside of the flash.
-/
structure CopyTells (chip : Chip) (shell : Shell (Flash.Board E))
    (m : Monitor (Flash.Board E)) (args : Args) : Prop where
  source : forall i, i < (copyCount shell m args).toNat ->
    OutsideFlash (downloaded shell m args).shell.banks
      (strtoulHex args.loadAddress + BitVec.ofNat 32 i)
  copy : copyCount shell m args ≠ 0#32 ->
    Programmable chip (erased shell m args).shell (strtoulHex args.loadAddress)
      (strtoulHex args.flashStart) (copyCount shell m args)

/-- `tftpboot` has placed the bytes at the load address, and reports their number last. -/
structure Placed (shell : Shell (Flash.Board E)) (m : Monitor (Flash.Board E)) (args : Args)
    (bytes : List Byte) : Prop where
  nonempty : 0 < bytes.length
  small : bytes.length < 2 ^ 31
  reported : exists front back,
    replyText shell (ranCommands shell m [setenvServerip args, setenvIpaddr args])
        (tftpboot args) =
      front ++ (puts (netLoopReport (BitVec.ofNat 32 bytes.length)) ++ back) ∧
    forall later, later <:+ back -> tftpSizeAt later = none
  memory : HoldsBytes (downloaded shell m args).shell.memory (strtoulHex args.loadAddress)
    (fun i => bytes.getD i 0#8) bytes.length

theorem strtoulHex_hexText {n : Nat} (hpos : 0 < n) :
    strtoulHex (hexText n) = BitVec.ofNat 32 n := by
  have hbytes : bytesOf (hexText n) = hexBytes n := rfl
  unfold strtoulHex
  rw [hbytes, simpleStrtoul_hexBytes hpos]

theorem Placed.count {shell : Shell (Flash.Board E)} {m : Monitor (Flash.Board E)}
    {args : Args} {bytes : List Byte} (h : Placed shell m args bytes) :
    (copyCount shell m args).toNat = bytes.length := by
  rcases h.reported with ⟨front, back, hreply, hlast⟩
  have hsize : (BitVec.ofNat 32 bytes.length).toNat = bytes.length := by
    have hsmall := h.small
    rw [BitVec.toNat_ofNat, Nat.mod_eq_of_lt (by omega)]
  have hlength := @copyLength_report args (BitVec.ofNat 32 bytes.length)
    (by rw [hsize]; exact h.nonempty) (by rw [hsize]; exact h.small) front back hlast
  unfold copyCount
  rw [hreply, hlength, hsize, strtoulHex_hexText h.nonempty, hsize]

variable {chip : Chip} {set : CommandSet (Flash.Board E)} {args : Args}
  {m : Monitor (Flash.Board E)}

theorem erased_outside (hset : FlashSet chip set) (hwords : PlainAddresses args)
    (hprotect : PlainCommand (protectOff args)) (herase : PlainCommand (eraseFlash args))
    {a : BitVec 32} (h : OutsideFlash (downloaded (commandShell set) m args).shell.banks a) :
    (erased (commandShell set) m args).shell.memory a =
      (downloaded (commandShell set) m args).shell.memory a := by
  have hunprotected := protectOff_runs hset hwords hprotect
    (downloaded (commandShell set) m args)
  have herased := eraseFlash_runs hset hwords herase (unprotected (commandShell set) m args)
  have honly := doProtect_onlyProtects (downloaded (commandShell set) m args).shell
    (protectWords args)
  have houtside : OutsideFlash (unprotected (commandShell set) m args).shell.banks a := by
    unfold unprotected
    rw [hunprotected]
    exact honly.layout.outside h
  unfold erased
  rw [herased, doFlerase_outside chip _ _ a houtside]
  unfold unprotected
  rw [hunprotected, honly.memory]

/-- A copy whose reply is accepted has left the downloaded bytes in the flash. -/
theorem accepted_holds (hset : FlashSet chip set) (hwords : PlainAddresses args)
    (hplain : forall command, command ∈ cycleCommands (commandShell set) m args ->
      PlainCommand command)
    (htells : CopyTells chip (commandShell set) m args)
    (haccepted : Accepted (commandShell set) m args) :
    HoldsBytes (ranCommands (commandShell set) m
        (cycleCommands (commandShell set) m args)).shell.memory (strtoulHex args.flashStart)
      (fun i => (downloaded (commandShell set) m args).shell.memory
        (strtoulHex args.loadAddress + BitVec.ofNat 32 i))
      (copyCount (commandShell set) m args).toNat := by
  intro i hi
  have hsome : copyCount (commandShell set) m args ≠ 0#32 := by
    intro hzero
    rw [hzero] at hi
    exact absurd hi (Nat.not_lt_zero i)
  have hcommand : PlainCommand (copyCommand (commandShell set) m args) :=
    hplain _ (by simp [cycleCommands, copyCommand])
  have hprotect : PlainCommand (protectOff args) := hplain _ (by simp [cycleCommands])
  have herase : PlainCommand (eraseFlash args) := hplain _ (by simp [cycleCommands])
  rcases copyToFlash_runs hset hwords (hexNumber_copyLength args _) hcommand
    (erased (commandShell set) m args) with ⟨hstate, hreply⟩
  have hnumber : forall text, (simpleStrtoul (bytesOf text) 16).1 = strtoulHex text :=
    fun _ => rfl
  rcases doMemCp_tells (hnumber args.loadAddress) (hnumber args.flashStart) rfl hsome
    (htells.copy hsome) with hreport | hholds
  · -- the script would have given up
    have hseen := haccepted.copy
    unfold copyCommand at hseen
    rw [hreply] at hseen
    unfold copyWords at hseen
    rw [hreport, List.append_assoc, ← List.append_assoc, notErasedReport_found] at hseen
    cases hseen
  · have hmemory := hholds i hi
    have hsource := erased_outside hset hwords hprotect herase (htells.source i hi)
    show (ranCommand (commandShell set) (erased (commandShell set) m args)
      (copyCommand (commandShell set) m args)).shell.memory _ = _
    unfold copyCommand
    rw [hstate]
    unfold copyWords
    rw [hmemory]
    exact hsource

end Cycle

/-!
# A board with four bytes to copy
-/

def sampleImage : List Byte := [0x27#8, 0x05#8, 0x19#8, 0x56#8]

def sampleSetenv : Entry (Flash.Board Unit) where
  name := ascii "setenv"
  usage := []
  help := []
  maxargs := 16
  repeatable := false
  isBootd := false
  cmd := fun board _ _ => ⟨[], board, 0, false⟩

def sampleDownload : Text :=
  chars "Load address: 0x400000\n" ++ chars "Loading: #\ndone\n" ++ netLoopReport 4#32

def sampleTftpboot : Entry (Flash.Board Unit) where
  name := ascii "tftpboot"
  usage := []
  help := []
  maxargs := 3
  repeatable := true
  isBootd := false
  cmd := fun board _ _ =>
    { output := sampleDownload
      state := { board with memory := copyMemory board.memory 0x00400000#32 sampleImage }
      rc := 0
      interrupted := false }

def sampleSet (chip : Chip) : CommandSet (Flash.Board Unit) where
  table := [cpEntry chip, eraseEntry chip, protectEntry, sampleSetenv, sampleTftpboot]
  getenv := fun _ _ => none
  front := 0#8

theorem sampleSet_flash (chip : Chip) : FlashSet chip (sampleSet chip) := ⟨rfl, rfl, rfl⟩

def sampleMonitor : Monitor (Flash.Board Unit) :=
  firstMonitor ⟨fun _ => 0xff#8, boardBanks (fun _ => false), 0#32, ()⟩

def deadChip : Chip where
  program := fun _ content _ => content
  erase := fun _ _ => 0xff#8
  dots := fun _ => 0

def sampleCommands : List Text :=
  [setenvServerip sampleArgs, setenvIpaddr sampleArgs, tftpboot sampleArgs,
    protectOff sampleArgs, eraseFlash sampleArgs, copyToFlash sampleArgs (chars "4")]

def sampleOutputs (report : Text) : List Text :=
  [[], [], sampleDownload, chars "Un-Protected 16 sectors\n",
    chars "\n done\nErased 16 sectors\n", chars "Copy to Flash... " ++ report]

def sampleReplies (report : Text) : List Text :=
  List.zipWith replyOf sampleCommands (sampleOutputs report)

/-- A read that returns a reply, after a look at the clock. -/
def replyAnswers (reply : Text) : List Answer :=
  [{ chunk := [], late := false }, { chunk := reply, late := false }]

def repliesAnswers (replies : List Text) (n : Nat) : Answer :=
  (readAnswers "*** ELTEC Elektronik, Mainz ***\r\n" ++ readAnswers "Loading 1000100\r\n" ++
    [{ chunk := [], late := false }, lateAnswer, lateAnswer] ++
    readAnswers "U-Boot 2010.09\r\n=> " ++ replies.flatMap replyAnswers).getD n lateAnswer

def repliesRun (report : Text) : Outcome Failure Nat × SerialConsole :=
  main sampleArgs (startConsole sampleArgs (repliesAnswers (sampleReplies report)) 4)

abbrev sampleBoardShell (chip : Chip) : Shell (Flash.Board Unit) :=
  commandShell (sampleSet chip)

def sampleBoot : List Event :=
  [.reopened, .message .log (chars "Connected to /dev/ttyUSB0 at 9600 baud"),
    .message .message (chars ("Press RESET on the board now.\n" ++
      "The script is waiting for reboot markers on the serial output:")),
    .received (chars "*** ELTEC Elektronik, Mainz ***\r\n"),
    .message .log (chars "Reset marker detected"),
    .message .log (chars "Waiting for boot ROM output after RESET"),
    .received (chars "Loading 1000100\r\n"), .message .log (chars "Loading detected"),
    .message .log (chars "Waiting for Loading to finish"),
    .message .log (chars "Waiting 5.0s before starting U-Boot from RAM"),
    .message .log (chars "Serial send: g 1000100"), .sent (chars "g 1000100\r"),
    .message .log (chars "Waiting for U-Boot to start"),
    .received (chars "U-Boot 2010.09\r\n=> ")]

structure SampleRun (chip : Chip) (report : Text) : Prop where
  commands : cycleCommands (sampleBoardShell chip) sampleMonitor sampleArgs = sampleCommands
  outputs : outputsOf (sampleBoardShell chip) sampleMonitor.shell sampleCommands =
    sampleOutputs report
  ends : forall reply, reply ∈ sampleReplies report -> promptRe.found reply.dropLast = false
  room : (bufferOf sampleBoot).length + (sampleReplies report).flatten.length <= bufferLimit
  run : ((repliesRun report).1, (repliesRun report).2.trace) = (Outcome.ok 0,
    sampleBoot ++ acquired :: (cycleEvents sampleCommands (sampleReplies report) ++
      finishedMessages))
  last : acquired ∉ cycleEvents sampleCommands (sampleReplies report) ++ finishedMessages
  source : HoldsBytes (downloaded (sampleBoardShell chip) sampleMonitor sampleArgs).shell.memory
    (strtoulHex sampleArgs.loadAddress) (fun i => sampleImage.getD i 0#8) 4

theorem sampleCommands_plain : forall command, command ∈ sampleCommands ->
    PlainCommand command := by
  decide

theorem eq_of_fst {α β : Type} {pair : α × β} {outcome : α} (h : pair.1 = outcome) :
    pair = (outcome, pair.2) := by
  rw [← h]

section SampleRun

variable {chip : Chip} {report : Text}

theorem SampleRun.replies (h : SampleRun chip report) :
    repliesOf (sampleBoardShell chip) sampleMonitor sampleCommands = sampleReplies report := by
  rw [repliesOf_outputs, h.outputs]
  rfl

theorem SampleRun.orderly (h : SampleRun chip report) :
    Orderly (sampleBoardShell chip) sampleMonitor (bufferOf sampleBoot).length
      (cycleCommands (sampleBoardShell chip) sampleMonitor sampleArgs) := by
  rw [h.commands]
  exact orderly_of_replies rfl h.replies sampleCommands_plain h.ends h.room

theorem SampleRun.served (h : SampleRun chip report) :
    Served (sampleBoardShell chip) (settledLink sampleMonitor)
      (cycleEvents sampleCommands (sampleReplies report) ++ finishedMessages)
      (settledLink (ranCommands (sampleBoardShell chip) sampleMonitor sampleCommands)) := by
  have hstart : Served (sampleBoardShell chip) (settledLink sampleMonitor) []
      (settledLink sampleMonitor) := .nil
  have hcycle := served_cycle rfl sampleCommands sampleCommands_plain hstart
  rw [h.replies, List.nil_append] at hcycle
  have hfinished := served_message .message
    (chars "Switch the memory addressing mode, then reboot the machine.")
    (served_message .log (chars "Flash programming finished") hcycle)
  rw [List.append_assoc] at hfinished
  exact hfinished

theorem SampleRun.placed (h : SampleRun chip report) :
    Placed (sampleBoardShell chip) sampleMonitor sampleArgs sampleImage := by
  have hreply : replyText (sampleBoardShell chip) (ranCommands (sampleBoardShell chip)
      sampleMonitor [setenvServerip sampleArgs, setenvIpaddr sampleArgs])
        (tftpboot sampleArgs) = replyOf (tftpboot sampleArgs) sampleDownload := by
    have hreplies := h.replies
    unfold sampleReplies sampleCommands sampleOutputs repliesOf at hreplies
    exact (List.cons.inj (List.cons.inj (List.cons.inj hreplies).right).right).left
  have hlast : forall text, text ∈ prompt.tails -> tftpSizeAt text = none := by decide
  refine ⟨by decide, by decide, ⟨tftpboot sampleArgs ++ chars "\r\r\n" ++
    puts (chars "Load address: 0x400000\n" ++ chars "Loading: #\ndone\n"), prompt, ?_, ?_⟩,
    h.source⟩
  · rw [hreply]
    decide
  · intro later hlater
    exact hlast later ((List.mem_tails _ _).mpr hlater)

theorem sampleArgs_words : PlainAddresses sampleArgs :=
  ⟨⟨by decide +kernel, by decide +kernel⟩, ⟨by decide +kernel, by decide +kernel⟩,
    ⟨by decide +kernel, by decide +kernel⟩⟩

theorem SampleRun.returned (h : SampleRun chip report) :
    repliesRun report = (.ok 0, (repliesRun report).2) :=
  eq_of_fst (Prod.mk.inj h.run).left

theorem SampleRun.trace (h : SampleRun chip report) :
    (repliesRun report).2.trace = sampleBoot ++ acquired ::
      (cycleEvents sampleCommands (sampleReplies report) ++ finishedMessages) :=
  (Prod.mk.inj h.run).right

end SampleRun

/-- What does not depend on the flash, with both reports at once: they share most texts. -/
theorem sampleReplies_run : forall report, report ∈ [chars "done\n", flashPerror errTimout] ->
    (forall reply, reply ∈ sampleReplies report -> promptRe.found reply.dropLast = false) ∧
      (bufferOf sampleBoot).length + (sampleReplies report).flatten.length <= bufferLimit ∧
      ((repliesRun report).1, (repliesRun report).2.trace) = (Outcome.ok 0,
        sampleBoot ++ acquired :: (cycleEvents sampleCommands (sampleReplies report) ++
          finishedMessages)) ∧
      acquired ∉ cycleEvents sampleCommands (sampleReplies report) ++ finishedMessages := by
  decide +kernel

theorem sampleRun_of_chip {chip : Chip} {report : Text}
    (hreport : report ∈ [chars "done\n", flashPerror errTimout])
    (hcommands : cycleCommands (sampleBoardShell chip) sampleMonitor sampleArgs = sampleCommands)
    (houtputs : outputsOf (sampleBoardShell chip) sampleMonitor.shell sampleCommands =
      sampleOutputs report)
    (hsource : HoldsBytes
      (downloaded (sampleBoardShell chip) sampleMonitor sampleArgs).shell.memory
      (strtoulHex sampleArgs.loadAddress) (fun i => sampleImage.getD i 0#8) 4) :
    SampleRun chip report := by
  obtain ⟨hends, hroom, hrun, hlast⟩ := sampleReplies_run report hreport
  exact ⟨hcommands, houtputs, hends, hroom, hrun, hlast, hsource⟩

theorem sampleRun_nor : SampleRun norChip (chars "done\n") :=
  sampleRun_of_chip List.mem_cons_self (by decide +kernel) (by decide +kernel)
    (by unfold HoldsBytes; decide +kernel)

theorem sampleRun_tells : CopyTells norChip (sampleBoardShell norChip) sampleMonitor
    sampleArgs := by
  have hload : strtoulHex sampleArgs.loadAddress = 0x00400000#32 := by decide
  have hstart : strtoulHex sampleArgs.flashStart = 0xff900000#32 := by decide
  have hcount : copyCount (sampleBoardShell norChip) sampleMonitor sampleArgs = 4#32 := by
    decide +kernel
  have hapart : SourceApart 0x00400000#32 0xff900000#32 4 := sourceApart_low (by decide)
  constructor
  · rw [hload, hcount]
    unfold OutsideFlash FlashInfo.Outside
    decide +kernel
  · intro _
    rw [hload, hstart, hcount]
    refine ⟨by decide +kernel, ⟨hapart, 0, 0, by decide +kernel, by decide +kernel,
      by decide +kernel, by decide +kernel⟩, Or.inl ?_⟩
    apply wordsTake_of_erased hapart.size
    unfold NeedsErase
    decide +kernel

/-!
# What the flash holds
-/

/--
In every run of `main` that returns, whose last cycle is in step with the board and whose copy
is let through up to the check of its words, the flash holds what was at the load address
behind the download; these are the bytes that `tftpboot` has placed, if it reports their
number.
-/
theorem flash_holds_download {E : Type} {chip : Chip} {set : CommandSet (Flash.Board E)}
    (hset : FlashSet chip set) {args : Args} (hwords : PlainAddresses args)
    {answers : Nat -> Answer} {limit code : Nat} {u : SerialConsole}
    {before after : List Event} {m : Monitor (Flash.Board E)} {link : Link (Flash.Board E)}
    (hmain : main args (startConsole args answers limit) = (.ok code, u))
    (hsplit : u.trace = before ++ acquired :: after) (hlast : acquired ∉ after)
    (hline : m.line = [])
    (horderly : Orderly (commandShell set) m (bufferOf before).length
      (cycleCommands (commandShell set) m args))
    (hserved : Served (commandShell set) (settledLink m) after link)
    (htells : CopyTells chip (commandShell set) m args) :
    exists done, link = settledLink done ∧
      HoldsBytes done.shell.memory (strtoulHex args.flashStart)
        (fun i => (downloaded (commandShell set) m args).shell.memory
          (strtoulHex args.loadAddress + BitVec.ofNat 32 i))
        (copyCount (commandShell set) m args).toNat ∧
      forall bytes, Placed (commandShell set) m args bytes ->
        HoldsBytes done.shell.memory (strtoulHex args.flashStart)
          (fun i => bytes.getD i 0#8) bytes.length := by
  rcases main_accepted hmain hsplit hlast hline horderly hserved with ⟨hlink, haccepted⟩
  have hholds := accepted_holds hset hwords horderly.plain htells haccepted
  refine ⟨_, hlink, hholds, ?_⟩
  intro bytes hplaced i hi
  have hcopied := hholds i (by rw [hplaced.count]; exact hi)
  exact hcopied.trans (hplaced.memory i hi)

/-- The four bytes are in the flash behind the run. -/
theorem flash_holds_sample :
    exists done, settledLink (ranCommands (sampleBoardShell norChip) sampleMonitor
        sampleCommands) = settledLink done ∧
      HoldsBytes done.shell.memory (strtoulHex sampleArgs.flashStart)
        (fun i => sampleImage.getD i 0#8) 4 := by
  have h := sampleRun_nor
  rcases flash_holds_download (sampleSet_flash norChip) sampleArgs_words h.returned h.trace
    h.last rfl h.orderly h.served sampleRun_tells with ⟨done, hlink, _, hholds⟩
  exact ⟨done, hlink, hholds sampleImage h.placed⟩

theorem sampleRun_dead : SampleRun deadChip (flashPerror errTimout) :=
  sampleRun_of_chip (List.mem_cons_of_mem _ List.mem_cons_self) (by decide +kernel)
    (by decide +kernel) (by unfold HoldsBytes; decide +kernel)

/-- A flash that takes nothing: the run is a success, and the flash is still blank. -/
theorem flash_success_blank :
    ¬ (forall (chip : Chip) (set : CommandSet (Flash.Board Unit)) (args : Args)
        (answers : Nat -> Answer) (limit : Nat) (u : SerialConsole) (before after : List Event)
        (m : Monitor (Flash.Board Unit)) (link : Link (Flash.Board Unit)) (bytes : List Byte),
      FlashSet chip set -> PlainAddresses args ->
        main args (startConsole args answers limit) = (.ok 0, u) ->
          u.trace = before ++ acquired :: after -> acquired ∉ after -> m.line = [] ->
            Orderly (commandShell set) m (bufferOf before).length
              (cycleCommands (commandShell set) m args) ->
            Served (commandShell set) (settledLink m) after link ->
              Placed (commandShell set) m args bytes ->
                exists done, link = settledLink done ∧
                  HoldsBytes done.shell.memory (strtoulHex args.flashStart)
                    (fun i => bytes.getD i 0#8) bytes.length) := by
  intro hclaim
  have h := sampleRun_dead
  rcases hclaim deadChip (sampleSet deadChip) sampleArgs
    (repliesAnswers (sampleReplies (flashPerror errTimout))) 4 _ _ _ _ _ _
    (sampleSet_flash deadChip) sampleArgs_words h.returned h.trace h.last rfl h.orderly
    h.served h.placed with ⟨done, hlink, hholds⟩
  have hdone : ranCommands (sampleBoardShell deadChip) sampleMonitor sampleCommands = done :=
    Board.monitor.inj (congrArg Link.board hlink)
  have hfirst := hholds 0 (by decide)
  rw [← hdone] at hfirst
  exact absurd hfirst (by decide +kernel)

end Console
end Bab750
