import Bab750.Console.Markers

/-!
# What the Linux boot script looks for

The regular expressions of `bab750_boot_legacy_linux.py` that differ from those of
the flash script, and the texts that `str` makes of a file.
-/

namespace Bab750
namespace Console
namespace Linux

open Foundation
open Pattern

/-!
# U-Boot
-/

def ubootAutobootRe : Pattern :=
  .alt (anyCase "Hit any key to stop autoboot")
    (sequence [anyCase "Press", oneOrMore isSpace, anyCase "'Enter'",
      oneOrMore isSpace, anyCase "or", oneOrMore isSpace, anyCase "'Space'",
      oneOrMore isSpace, anyCase "to stop autoboot"])

def isDigitOrDot (c : Char) : Bool := ('0' <= c && c <= '9') || c == '.'

def ubootTftpAutorunRe : Pattern :=
  .alt (sequence [anyCase "BOOTP broadcast", oneOrMore isSpace, oneOrMore isDecimal])
    (.alt (sequence [anyCase "TFTP from server", oneOrMore isSpace,
        oneOrMore isDigitOrDot])
      (.alt (sequence [anyCase "Filename", oneOrMore isSpace, anyCase "'",
          oneOrMore (fun c => c != '\''), anyCase "'.", spaces])
        (sequence [anyCase "Load address:", spaces, anyCase "0x",
          oneOrMore isHexDigit])))

def envOverflowRe : Pattern :=
  sequence [anyCase "environment overflow,", spaces, anyCase "\"filesize\"",
    oneOrMore isSpace, anyCase "deleted"]

def tftpTransferredRe : Pattern :=
  sequence [anyCase "Bytes transferred", spaces, anyCase "=", spaces,
    oneOrMore isDecimal]

/-!
# Linux
-/

def linuxBootRe : Pattern :=
  .alt (anyCase "Starting kernel")
    (.alt (anyCase "Linux version")
      (.alt (anyCase "Kernel command line")
        (.alt (anyCase "Freeing unused kernel memory") (anyCase "Run /sbin/init"))))

/-- Not the end of a line for `(?:^|[\r\n])`. -/
def insideLine (c : Char) : Bool := c != '\r' && c != '\n'

/-- `[eé]` under `re.IGNORECASE`. -/
def isAccentedE (c : Char) : Bool :=
  foldCase c == 'e' || c.toNat == 0xe9 || c.toNat == 0xc9

/-- `LINUX_SUCCESS_RE`; the end of a line is the end of the text or a line feed. -/
def linuxSuccessRe : Pattern :=
  .alt (anyCase "BAB750 PPC mininit is alive.")
    (.alt (anyCase "BAB750 rescue shell ready")
      (.alt (anyCase "BAB750 vendor Linux 2.4 userspace is up.")
        (.alt (sequence [.boundary insideLine, anyCase "bab750#", .char isSpace])
          (.alt (sequence [.boundary insideLine, anyCase "login:", spaces,
              .alt (.boundary (fun _ => true)) (.char (fun c => c == '\n'))])
            (sequence [anyCase "Welcome to Ad", .char isAccentedE, anyCase "lie"])))))

/-- The exceptions of the processor that both scripts of the board report. -/
def exceptionRe : Pattern :=
  .alt (anyCase "Program Check Exception")
    (.alt (anyCase "Machine Check Exception")
      (.alt (anyCase "Alignment Exception")
        (.alt (anyCase "Instruction Access Exception") (anyCase "Data Access Exception"))))

def kernelFailureRe : Pattern :=
  .alt (anyCase "Kernel panic")
    (.alt (anyCase "VFS: Unable to mount root fs")
      (.alt (anyCase "No working init found")
        (.alt (anyCase "Unable to handle kernel")
          (.alt (anyCase "Oops:")
            (.alt (anyCase "BUG:")
              (.alt (sequence [anyCase "NFS:", .many (fun c => c != '\n'),
                  anyCase "not responding"])
                exceptionRe))))))

/-!
# Lines with an error
-/

/--
The alternatives in the middle of `SERIAL_ERROR_LINE_RE`.  Under `re.IGNORECASE` the
third one, `(?<!#)Error:`, matches nothing that the fourth one does not.
-/
def errorTextRe : Pattern :=
  .alt (sequence [anyCase "[", spaces, anyCase "ERROR", spaces, anyCase "]"])
    (.alt (sequence [anyCase "##", spaces, anyCase "Error:"])
      (.alt (anyCase "ERROR:") exceptionRe))

def errorTextEnd : Text -> Option Text
  | [] => none
  | c :: rest =>
      if c = '\n' then none
      else
        match errorTextEnd rest with
        | some after => some after
        | none => ((errorTextRe.ends none (c :: rest)).head?).map (fun place => place.2)

def endOfLine (text : Text) : Text := text.dropWhile (fun c => c != '\n')

/-- `SERIAL_ERROR_LINE_RE.finditer` from the start of a line on: the groups. -/
def serialErrorLinesFrom : Nat -> Text -> List Text
  | 0, _ => []
  | fuel + 1, text =>
      match errorTextEnd text with
      | some after =>
          text.take (text.length - (endOfLine after).length) ::
            serialErrorLinesFrom fuel (endOfLine after).tail
      | none =>
          match endOfLine text with
          | [] => []
          | _ :: next => serialErrorLinesFrom fuel next

/-- `SERIAL_ERROR_LINE_RE.finditer`: the groups. -/
def serialErrorLines (haystack : Text) : List Text :=
  serialErrorLinesFrom (haystack.length + 1) haystack

/-!
# Files of commands
-/

/-- `str.strip`. -/
def strip (text : Text) : Text :=
  ((text.dropWhile isSpace).reverse.dropWhile isSpace).reverse

/-- The ends of lines of `str.splitlines`. -/
def isLineBreak (c : Char) : Bool :=
  (10 <= c.toNat && c.toNat <= 13) || (28 <= c.toNat && c.toNat <= 30) ||
    c.toNat == 0x85 || c.toNat == 0x2028 || c.toNat == 0x2029

/-- `str.splitlines`, where carriage returns have been taken out by the text layer. -/
def splitLinesFrom (line : Text) : Text -> List Text
  | [] => if line.isEmpty then [] else [line]
  | c :: rest =>
      if isLineBreak c then line :: splitLinesFrom [] rest
      else splitLinesFrom (line ++ [c]) rest

/-- The text layer of a file that is open for reading: all newlines are line feeds. -/
def universalNewlines : Text -> Text
  | [] => []
  | '\r' :: '\n' :: rest => '\n' :: universalNewlines rest
  | c :: rest => (if c = '\r' then '\n' else c) :: universalNewlines rest

/-- `path.read_text(encoding="utf-8").splitlines()`. -/
def fileLines (content : Text) : List Text :=
  splitLinesFrom [] (universalNewlines content)

def commandLines (content : Text) : List Text :=
  ((fileLines content).map strip).filter
    (fun line => !line.isEmpty && !(chars "#").isPrefixOf line)

/-- `load_commands_file`, with the name and the content of the file if it exists. -/
def loadCommandsFile (path : Text) (file : Option Text) : Except Text (List Text) :=
  match file with
  | none => .error (chars "U-Boot commands file not found: " ++ path)
  | some content =>
      match (commandLines content).getLast? with
      | none => .error (chars "No U-Boot commands found in: " ++ path)
      | some last =>
          if (chars "bootm ").isPrefixOf last then .ok (commandLines content)
          else .error (chars "The last command in " ++ path ++
            chars " must be a bootm command")

end Linux
end Console
end Bab750
