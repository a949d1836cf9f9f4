import Bab750.Environment.Setenv
import Bab750.Foundation.Words

/-!
# The environment in NVRAM

The NVRAM of the board lies behind the address and data registers of the clock
chip and is read and written byte by byte.  `env_nvram.c` keeps the checksum and
the data area there; `env_common.c` chooses at boot between that image and the
default environment, and moves the chosen one to RAM.
-/

namespace Bab750
namespace Environment

open Foundation
open Support

/-!
# The device
-/

/-- The contents of the chip; register numbers are of type `short`. -/
abbrev Nvram := BitVec 16 -> Byte

def rtcRead (nv : Nvram) (reg : BitVec 16) : Byte := nv reg

def rtcWrite (nv : Nvram) (reg : BitVec 16) (val : Byte) : Nvram :=
  fun r => if r = reg then val else nv r

def nvramRead (nv : Nvram) (src : BitVec 16) : Nat -> List Byte
  | 0 => []
  | count + 1 => rtcRead nv src :: nvramRead nv (src + 1#16) count

def nvramWrite (nv : Nvram) (dest : BitVec 16) : List Byte -> Nvram
  | [] => nv
  | b :: src => nvramWrite (rtcWrite nv dest b) (dest + 1#16) src

def configEnvAddr : BitVec 16 := 0x1ff0#16 + 0x10#16 - 0x800#16

/-!
# Default environment
-/

/-- The strings of `default_environment`. -/
def defaultStrings : List (List Byte) :=
  [ascii "bootcmd=bootp 1000000; setenv bootargs root=ramfs console=ttyS00,9600 " ++
      ascii "ip=$\x7bipaddr\x7d:$\x7bserverip\x7d:$\x7brootpath\x7d:" ++
        ascii "$\x7bgatewayip\x7d:$\x7bnetmask\x7d:$\x7bhostname\x7d:eth0:none; bootm",
    ascii "bootdelay=5",
    ascii "baudrate=9600",
    ascii "loads_echo=0",
    ascii "ethaddr=00:00:5b:ee:de:ad",
    ascii "ipaddr=192.168.0.105",
    ascii "serverip=192.168.0.100"]

def defaultEnvironment : List Byte :=
  encodeStrings defaultStrings ++ [0#8, 0#8]

/-- `set_default_env`: the flag `env_valid` and the state. -/
def setDefaultEnv (s : BoardState) (envValid : Bool) : Bool × BoardState :=
  if envSize < defaultEnvironment.length then
    (envValid, s.print (ascii "*** Error - default environment is too large\n\n"))
  else
    let data := defaultEnvironment ++
      List.replicate (envSize - defaultEnvironment.length) 0#8
    (true, envCrcUpdate { s with crc := 0#32, data := data })

/-!
# Boot and save
-/

/-- `env_init`: whether the image in NVRAM is valid.  `stack` is where the copy lies. -/
def envInit (nv : Nvram) (stack : Nat) : Bool :=
  let crc := bytesWord (nvramRead nv configEnvAddr 4)
  let data := nvramRead nv (configEnvAddr + 4#16) envSize
  crc32 0#32 stack data = crc

/-- The block that `malloc` returns for the environment. -/
structure EnvBlock where
  address : Nat
  crc : BitVec 32
  data : List Byte

def envRelocateSpec (s : BoardState) (nv : Nvram) : BoardState :=
  let image := nvramRead nv configEnvAddr configEnvSize
  { s with
    crc := bytesWord (image.take envHeaderSize)
    data := image.drop envHeaderSize }

/-- `env_relocate`: the flag `env_valid` and the state. -/
def envRelocate (s : BoardState) (nv : Nvram) (envValid : Bool)
    (block : EnvBlock) : Bool × BoardState :=
  let s := { s with envPtr := block.address, crc := block.crc, data := block.data }
  if envValid then (envValid, envRelocateSpec s nv)
  else
    setDefaultEnv
      (s.print (ascii "*** Warning - bad CRC, using default environment\n\n")) envValid

def envImage (s : BoardState) : List Byte :=
  wordBytes s.crc ++ s.data

def saveenv (s : BoardState) (nv : Nvram) : Nvram :=
  nvramWrite nv configEnvAddr ((envImage s).take configEnvSize)

/-!
# Character access
-/

def envGetCharSpec (nv : Nvram) (index : Nat) : Byte :=
  rtcRead nv (configEnvAddr + BitVec.ofNat 16 index)

def envGetCharInit (envValid : Bool) (nv : Nvram) (index : Nat) : Option Byte :=
  if envValid then some (envGetCharSpec nv index) else defaultEnvironment[index]?

def envGetCharMemory (envValid : Bool) (s : BoardState) (index : Nat) : Option Byte :=
  if envValid then dataChar s.data index else defaultEnvironment[index]?

/-!
# Reads and writes of the device
-/

theorem register_succ (reg : BitVec 16) (k : Nat) :
    reg + 1#16 + BitVec.ofNat 16 k = reg + BitVec.ofNat 16 (k + 1) := by
  rw [BitVec.ofNat_add, BitVec.add_assoc, BitVec.add_comm (1#16)]

theorem nvramRead_length (nv : Nvram) (src : BitVec 16) (count : Nat) :
    (nvramRead nv src count).length = count := by
  induction count generalizing src with
  | zero =>
      rfl
  | succ count ih =>
      simp [nvramRead, ih]

theorem nvramRead_add (nv : Nvram) (src : BitVec 16) (left right : Nat) :
    nvramRead nv src (left + right) =
      nvramRead nv src left ++ nvramRead nv (src + BitVec.ofNat 16 left) right := by
  induction left generalizing src with
  | zero =>
      simp [nvramRead]
  | succ left ih =>
      rw [Nat.add_right_comm, nvramRead, nvramRead, ih, List.cons_append]
      rw [register_succ]

theorem nvramRead_getElem? (nv : Nvram) (src : BitVec 16) (count k : Nat)
    (h : k < count) :
    (nvramRead nv src count)[k]? = some (nv (src + BitVec.ofNat 16 k)) := by
  induction count generalizing src k with
  | zero =>
      omega
  | succ count ih =>
      cases k with
      | zero =>
          simp [nvramRead, rtcRead]
      | succ k =>
          rw [nvramRead, List.getElem?_cons_succ, ih _ _ (by omega), register_succ]

theorem nvramWrite_outside (nv : Nvram) (dest : BitVec 16) (src : List Byte)
    (r : BitVec 16)
    (h : forall k, k < src.length -> r ≠ dest + BitVec.ofNat 16 k) :
    nvramWrite nv dest src r = nv r := by
  induction src generalizing nv dest with
  | nil =>
      rfl
  | cons b src ih =>
      rw [nvramWrite, ih]
      · have hfirst := h 0 (by simp)
        rw [show dest + BitVec.ofNat 16 0 = dest by simp] at hfirst
        simp [rtcWrite, hfirst]
      · intro k hk
        rw [register_succ]
        exact h (k + 1) (by simpa using hk)

theorem nvramRead_nvramWrite (nv : Nvram) (dest : BitVec 16) (src : List Byte)
    (h : src.length <= 2 ^ 16) :
    nvramRead (nvramWrite nv dest src) dest src.length = src := by
  induction src generalizing nv dest with
  | nil =>
      rfl
  | cons b src ih =>
      have hlen : src.length + 1 <= 2 ^ 16 := by simpa using h
      rw [List.length_cons, nvramRead, nvramWrite, ih _ _ (by omega)]
      congr 1
      rw [rtcRead, nvramWrite_outside]
      · simp [rtcWrite]
      · intro k hk heq
        rw [register_succ] at heq
        have hzero : BitVec.ofNat 16 (k + 1) = 0#16 := by
          simpa using heq.symm
        have hnat := congrArg BitVec.toNat hzero
        rw [BitVec.toNat_ofNat, Nat.mod_eq_of_lt (by omega)] at hnat
        simp at hnat

theorem envRelocate_valid (s : BoardState) (nv : Nvram) (block : EnvBlock) :
    envRelocate s nv true block =
      (true, { s with
        envPtr := block.address
        crc := bytesWord (nvramRead nv configEnvAddr 4)
        data := nvramRead nv (configEnvAddr + 4#16) envSize }) := by
  have hread : nvramRead nv configEnvAddr configEnvSize =
      nvramRead nv configEnvAddr 4 ++ nvramRead nv (configEnvAddr + 4#16) envSize :=
    nvramRead_add nv configEnvAddr 4 envSize
  have htake : (nvramRead nv configEnvAddr configEnvSize).take envHeaderSize =
      nvramRead nv configEnvAddr 4 := by
    rw [hread]
    exact List.take_left' (nvramRead_length nv _ 4)
  have hdrop : (nvramRead nv configEnvAddr configEnvSize).drop envHeaderSize =
      nvramRead nv (configEnvAddr + 4#16) envSize := by
    rw [hread]
    exact List.drop_left' (nvramRead_length nv _ 4)
  simp only [envRelocate, if_true, envRelocateSpec]
  rw [htake, hdrop]

end Environment
end Bab750
