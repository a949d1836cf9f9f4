import Bab750.Environment.Image
import Bab750.Support.Crc32
import Bab750.Support.Strtoul

/-!
# Setting environment variables

`_do_setenv` of `common/cmd_nvedit.c` as it is configured for the board
(`CONFIG_ENV_OVERWRITE`, network support, neither console multiplexing nor
several serial ports), with the functions it calls on the way.  The in-RAM
environment is changed in place, byte by byte.  A step outside an object, or a
call that waits for input that never comes, has no result.
-/

namespace Bab750
namespace Environment

open Foundation
open Support

/-!
# State and arguments
-/

inductive ConsoleFile where
  | stdin
  | stdout
  | stderr
deriving DecidableEq, Repr

/-- A `struct stdio_dev`; `start` is the result of its start function, if any. -/
structure StdioDev where
  name : List Byte
  flags : BitVec 32
  start : Option Int
deriving DecidableEq

/-- The part of the board that `_do_setenv` reads and writes. -/
structure BoardState where
  /-- `env_id`, counted up by every accepted call. -/
  envId : Int
  /-- Address of the environment buffer in RAM. -/
  envPtr : Nat
  /-- `env_ptr->crc`. -/
  crc : BitVec 32
  /-- `env_ptr->data`. -/
  data : List Byte
  /-- `gd->baudrate` and `gd->bd->bi_baudrate`. -/
  baudrate : BitVec 32
  /-- `bd->bi_ip_addr`. -/
  ipAddr : BitVec 32
  /-- `load_addr`. -/
  loadAddr : BitVec 32
  /-- The string in `BootFile`. -/
  bootFile : List Byte
  /-- The registered devices, in list order. -/
  devices : List StdioDev
  /-- `stdio_devices`. -/
  assigned : ConsoleFile -> Option StdioDev
  /-- The string at address 0, which a NULL argument points to. -/
  lowMemory : List Byte
  /-- Characters still to be received. -/
  input : List Byte
  /-- Console text printed so far. -/
  output : List Byte

/--
Arguments of one call: `argv[1]` and the values from `argv[2]` on.  The strings
lie in the memory of the board, so that `len` stays far below the range of `int`.
-/
structure SetenvArgs where
  name : CString
  values : List CString
  addressable :
    name.bytes.length + (values.map (fun v => v.bytes.length + 1)).sum + 2 < 2 ^ 31
deriving DecidableEq

def SetenvArgs.valueBytes (args : SetenvArgs) : List (List Byte) :=
  args.values.map CString.bytes

def BoardState.print (s : BoardState) (text : List Byte) : BoardState :=
  { s with output := s.output ++ text }

def envCrcUpdate (s : BoardState) : BoardState :=
  { s with crc := crc32 0#32 (s.envPtr + envHeaderSize) s.data }

/-!
# Searching, deleting, and appending a definition
-/

/-- The search loop: where the definition of a name starts and ends. -/
def searchDefinition (data name : List Byte) :
    Nat -> Nat -> Option (Option (Nat × Nat))
  | 0, _ => none
  | fuel + 1, env =>
      match data[env]? with
      | none => none
      | some c =>
          if c = 0#8 then some none
          else
            match scanNul (dataChar data) (data.length + 1) env with
            | none => none
            | some nxt =>
                match envmatch (dataChar data) name env with
                | none => none
                | some (some _) => some (some (env, nxt))
                | some none => searchDefinition data name fuel (nxt + 1)

/-- The shift loop of the deletion: copy down until a double NUL was copied. -/
def shiftDown : Nat -> List Byte -> Nat -> Nat -> Option (List Byte × Nat)
  | 0, _, _, _ => none
  | fuel + 1, data, env, nxt =>
      match data[nxt]? with
      | none => none
      | some c =>
          match store data env c with
          | none => none
          | some data =>
              if c = 0#8 then
                match data[nxt + 1]? with
                | none => none
                | some c' =>
                    if c' = 0#8 then some (data, env)
                    else shiftDown fuel data (env + 1) (nxt + 1)
              else shiftDown fuel data (env + 1) (nxt + 1)

/-- Remove the definition that starts at `env` and has its NUL at `nxt`. -/
def deleteDefinition (data : List Byte) (env nxt : Nat) : Option (List Byte) :=
  match data[nxt + 1]? with
  | none => none
  | some c =>
      if c = 0#8 then
        if 0 < env then store data env 0#8
        else (store data env 0#8).bind (fun data => store data (env + 1) 0#8)
      else
        match shiftDown (data.length + 1) data env (nxt + 1) with
        | none => none
        | some (data, env) => store data (env + 1) 0#8

def appendScan (data : List Byte) : Nat -> Nat -> Option Nat
  | 0, _ => none
  | fuel + 1, env =>
      match data[env]? with
      | none => none
      | some c =>
          if c = 0#8 then
            match data[env + 1]? with
            | none => none
            | some c' => if c' = 0#8 then some env else appendScan data fuel (env + 1)
          else appendScan data fuel (env + 1)

def appendPosition (data : List Byte) : Option Nat :=
  (appendScan data (data.length + 1) 0).map
    (fun env => if 0 < env then env + 1 else env)

def definitionLength (name : List Byte) (values : List (List Byte)) : Nat :=
  name.length + 2 + (values.map (fun v => v.length + 1)).sum

def writeValues (data : List Byte) (env : Nat) (separator : Byte) :
    List (List Byte) -> Option (List Byte × Nat)
  | [] => some (data, env)
  | v :: values =>
      match store data env separator with
      | none => none
      | some data =>
          match copyString data (env + 1) v with
          | none => none
          | some (data, env) => writeValues data env 0x20#8 values

def writeDefinition (data : List Byte) (env : Nat) (name : List Byte)
    (values : List (List Byte)) : Option (List Byte) :=
  match copyString data env name with
  | none => none
  | some (data, env) =>
      match writeValues data env equalsSign values with
      | none => none
      | some (data, env) => store data (env + 1) 0#8

/-!
# Side effects of some variables
-/

def baudrateTable : List (BitVec 32) :=
  [9600#32, 19200#32, 38400#32, 57600#32, 115200#32, 230400#32]

def consoleFile (name : List Byte) : Option ConsoleFile :=
  if name = ascii "stdin" then some .stdin
  else if name = ascii "stdout" then some .stdout
  else if name = ascii "stderr" then some .stderr
  else none

/-- The flag `console_assign` asks for. -/
def consoleFlag : ConsoleFile -> BitVec 32
  | .stdin => 0x1#32
  | .stdout => 0x2#32
  | .stderr => 0x2#32

def searchDevice (s : BoardState) (flags : BitVec 32) (name : List Byte) :
    Option StdioDev :=
  match s.devices.find? (fun dev => dev.name = name) with
  | none => none
  | some dev => if dev.flags &&& flags ≠ 0#32 then some dev else none

def consoleSetfile (s : BoardState) (file : ConsoleFile) (dev : StdioDev) :
    Int × BoardState :=
  let error := dev.start.getD 0
  if error < 0 then (error, s)
  else
    (error,
      { s with assigned := fun f => if f = file then some dev else s.assigned f })

def consoleAssign (s : BoardState) (file : ConsoleFile) (devname : List Byte) :
    Int × BoardState :=
  match searchDevice s (consoleFlag file) devname with
  | none => (-1, s)
  | some dev => consoleSetfile s file dev

/-- Wait for a carriage return; without one the loop does not end. -/
def waitForEnter : List Byte -> Option (List Byte)
  | [] => none
  | c :: rest => if c = 0x0d#8 then some rest else waitForEnter rest

/--
The baud rate part: `false` when the rate is not supported, and otherwise the
switch to the new rate.
-/
def switchBaudrate (s : BoardState) (values : List (List Byte)) :
    Option (Bool × BoardState) :=
  let baudrate := (simpleStrtoul (values.headD s.lowMemory) 10).1
  let text := ascii (toString baudrate.toInt)
  if baudrate ∈ baudrateTable then
    match waitForEnter s.input with
    | none => none
    | some input =>
        some (true,
          { s.print (ascii "## Switch baudrate to " ++ text ++
              ascii " bps and press ENTER ...\n") with
            baudrate := baudrate, input := input })
  else
    some (false,
      s.print (ascii "## Baudrate " ++ text ++ ascii " bps not supported\n"))

/-- One step of the address loop for `ipaddr`. -/
def ipStep (state : BitVec 32 × List Byte) : BitVec 32 × List Byte :=
  let parsed := simpleStrtoul state.2 10
  ((state.1 <<< 8) ||| (parsed.1 &&& 0xff#32), parsed.2.tail)

def parseIpAddr (text : List Byte) : BitVec 32 :=
  (ipStep (ipStep (ipStep (ipStep (0#32, text))))).1

/-- `copy_filename` into an array of `size` bytes. -/
def copyFilename (src : List Byte) (size : Nat) : List Byte :=
  match src with
  | 0x22#8 :: src => (src.takeWhile (fun c => c != 0x22#8)).take (size - 2)
  | src => (src.takeWhile (fun c => c != 0x22#8)).take (size - 1)

def updateCopies (s : BoardState) (name value : List Byte) : BoardState :=
  if name = ascii "ethaddr" then s
  else if name = ascii "ipaddr" then { s with ipAddr := parseIpAddr value }
  else if name = ascii "loadaddr" then
    { s with loadAddr := (simpleStrtoul value 16).1 }
  else if name = ascii "bootfile" then
    { s with bootFile := copyFilename value 128 }
  else s

/-!
# The command
-/

/-- The part of `_do_setenv` behind the deletion. -/
def setenvAppend (s : BoardState) (name : List Byte) (values : List (List Byte)) :
    Option (Int × BoardState) :=
  match values with
  | [] => some (0, envCrcUpdate s)
  | value :: _ =>
      match appendPosition s.data with
      | none => none
      | some env =>
          if envSize < env + definitionLength name values then
            some (1, s.print (ascii "## Error: environment overflow, \"" ++ name ++
              ascii "\" deleted\n"))
          else
            match writeDefinition s.data env name values with
            | none => none
            | some data =>
                some (0, updateCopies (envCrcUpdate { s with data := data }) name value)

/-- The part of `_do_setenv` that removes an existing definition. -/
def setenvDelete (s : BoardState) (name : List Byte) (values : List (List Byte))
    (found : Option (Nat × Nat)) : Option (Int × BoardState) :=
  match found with
  | none => setenvAppend s name values
  | some (env, nxt) =>
      match (if name = ascii "baudrate" then switchBaudrate s values
        else some (true, s)) with
      | none => none
      | some (false, s) => some (1, s)
      | some (true, s) =>
          match deleteDefinition s.data env nxt with
          | none => none
          | some data => setenvAppend { s with data := data } name values

/-- The console redirection: `true` when the call goes on. -/
def setenvConsole (s : BoardState) (name : List Byte) (values : List (List Byte)) :
    Bool × BoardState :=
  match consoleFile name with
  | none => (true, s)
  | some file =>
      match values with
      | [] => (false, s.print (ascii "Can't delete \"" ++ name ++ ascii "\"\n"))
      | devname :: _ =>
          let result := consoleAssign s file devname
          (0 <= result.1, result.2)

def doSetenv (s : BoardState) (args : SetenvArgs) : Option (Int × BoardState) :=
  let name := args.name.bytes
  let values := args.valueBytes
  if equalsSign ∈ name then
    some (1, s.print (ascii "## Error: illegal character '=' in variable name \"" ++
      name ++ ascii "\"\n"))
  else
    let s := { s with envId := s.envId + 1 }
    match searchDefinition s.data name (s.data.length + 1) 0 with
    | none => none
    | some found =>
        let console := setenvConsole s name values
        if console.1 then setenvDelete console.2 name values found
        else some (1, console.2)

end Environment
end Bab750
