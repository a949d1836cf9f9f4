import Bab750.Boot.Header
import Bab750.Support.Strtoul

/-!
# bootm

`common/cmd_bootm.c` as it is built for the board: legacy images only, without a device tree,
and with gzip as the only compression. The memory holds the images; the variables of U-Boot
are not part of it.
-/

namespace Bab750
namespace Boot

open Foundation
open Support

structure ImageInfo where
  start : BitVec 32
  end_ : BitVec 32
  imageStart : BitVec 32
  imageLen : BitVec 32
  load : BitVec 32
  comp : Byte
  type : Byte
  os : Byte
deriving DecidableEq

structure Headers where
  legacyHdrOs : BitVec 32
  legacyHdrOsCopy : List Byte
  legacyHdrValid : Bool
  os : ImageInfo
  ep : BitVec 32
  rdStart : BitVec 32
  rdEnd : BitVec 32
  verify : Bool
  state : Nat
deriving DecidableEq

/-- `memset (&images, 0, sizeof (images))`, and the state after a reset. -/
def noImages : Headers where
  legacyHdrOs := 0#32
  legacyHdrOsCopy := List.replicate 64 0#8
  legacyHdrValid := false
  os := ⟨0#32, 0#32, 0#32, 0#32, 0#32, 0#8, 0#8, 0#8⟩
  ep := 0#32
  rdStart := 0#32
  rdEnd := 0#32
  verify := false
  state := 0

/-- What `bootm` reads besides the memory. -/
structure Invocation where
  argv : List (List Byte)
  /-- `getenv_yesno ("verify")` -/
  verify : Bool
  /-- `load_addr` -/
  loadAddr : BitVec 32

def imageGetKernel (memory : Memory) (imgAddr : BitVec 32) (verify : Bool) : Bool :=
  let header := headerAt memory imgAddr
  imageCheckMagic header && imageCheckHcrc header &&
    (!verify || imageCheckDcrc memory imgAddr) && imageGetArch header = archPpc

def kernelAddress (call : Invocation) : BitVec 32 :=
  match call.argv[1]? with
  | none => call.loadAddr
  | some text => (simpleStrtoul text 16).1

structure Kernel where
  hdr : BitVec 32
  osData : BitVec 32
  osLen : BitVec 32

/-- `boot_get_kernel`; nothing inside when it returns `NULL`, nothing at all when it does not
return. -/
def bootGetKernel (memory : Memory) (call : Invocation) : Option (Option Kernel) :=
  let imgAddr := kernelAddress call
  let header := headerAt memory imgAddr
  if imageGetKernel memory imgAddr call.verify then
    if imageGetType header = typeKernel ∨ imageGetType header = typeStandalone then
      some (some ⟨imgAddr, imageGetData imgAddr, imageGetSize header⟩)
    else if imageGetType header = typeMulti then
      (imageMultiGetimg memory imgAddr 0).map (fun img => some ⟨imgAddr, img.1, img.2⟩)
    else some none
  else some none

def imageGetRamdisk (memory : Memory) (rdAddr : BitVec 32) (verify : Bool) : Bool :=
  let header := headerAt memory rdAddr
  imageCheckMagic header && imageCheckHcrc header &&
    (!verify || imageCheckDcrc memory rdAddr) && imageGetOs header = osLinux &&
    imageGetArch header = archPpc && imageGetType header = typeRamdisk

/-- `boot_get_ramdisk` up to the data and the length; nothing inside when it fails. -/
def ramdiskData (memory : Memory) (call : Invocation) (images : Headers) :
    Option (Option (BitVec 32 × BitVec 32)) :=
  match call.argv[2]? with
  | some text =>
      if text = ascii "-" then some (some (0#32, 0#32))
      else
        let rdAddr := (simpleStrtoul text 16).1
        if imageGetRamdisk memory rdAddr images.verify then
          some (some (imageGetData rdAddr, imageGetSize (headerAt memory rdAddr)))
        else some none
  | none =>
      if images.legacyHdrValid ∧ imageGetType images.legacyHdrOsCopy = typeMulti then
        (imageMultiGetimg memory images.legacyHdrOs 1).map some
      else some (some (0#32, 0#32))

def bootGetRamdisk (memory : Memory) (call : Invocation) (images : Headers) :
    Option (Option (BitVec 32 × BitVec 32)) :=
  (ramdiskData memory call images).map (Option.map (fun rd =>
    if rd.1 = 0#32 then (0#32, 0#32) else (rd.1, rd.1 + rd.2)))

def stateStart : Nat := 1

def kernelHeaders (memory : Memory) (verify : Bool) (kernel : Kernel) : Headers :=
  let header := headerAt memory kernel.hdr
  { noImages with
    verify := verify
    legacyHdrOs := kernel.hdr
    legacyHdrOsCopy := header
    legacyHdrValid := true
    os := {
      start := kernel.hdr
      end_ := imageGetImageEnd memory kernel.hdr
      imageStart := kernel.osData
      imageLen := kernel.osLen
      load := imageGetLoad header
      comp := imageGetComp header
      type := imageGetType header
      os := imageGetOs header }
    ep := imageGetEp header }

/-- `bootm_start`: the return code and the new `images`. `images.os.start` is only set at the
end. -/
def bootmStart (memory : Memory) (call : Invocation) : Option (Nat × Headers) :=
  match bootGetKernel memory call with
  | none => none
  | some none => some (1, { noImages with verify := call.verify })
  | some (some kernel) =>
      let images := kernelHeaders memory call.verify kernel
      let started := { images with os.start := 0#32 }
      if kernel.osLen = 0#32 then
        some (1, { noImages with
          verify := call.verify
          legacyHdrOs := kernel.hdr
          legacyHdrOsCopy := headerAt memory kernel.hdr
          legacyHdrValid := true
          os.imageStart := kernel.osData })
      else if (images.os.type = typeKernel ∨ images.os.type = typeMulti) ∧
          images.os.os = osLinux then
        match bootGetRamdisk memory call images with
        | none => none
        | some none => some (1, started)
        | some (some rd) =>
            some (0, { images with rdStart := rd.1, rdEnd := rd.2, state := stateStart })
      else some (0, { images with state := stateStart })

/-- `bootm_start` has found the images: what it leaves in `images`. -/
structure StartedFrom (memory : Memory) (call : Invocation) (kernel : Kernel)
    (images : Headers) : Prop where
  found : bootGetKernel memory call = some (some kernel)
  length : kernel.osLen ≠ 0#32
  record : images = { kernelHeaders memory call.verify kernel with
    rdStart := images.rdStart, rdEnd := images.rdEnd, state := stateStart }
  ramdisk : images.rdStart = 0#32 ∨
    bootGetRamdisk memory call (kernelHeaders memory call.verify kernel) =
      some (some (images.rdStart, images.rdEnd))

theorem bootmStart_cases {memory : Memory} {call : Invocation} {ret : Nat} {images : Headers}
    (h : bootmStart memory call = some (ret, images)) :
    ret = 1 ∧ images.state = 0 ∨
      ret = 0 ∧ exists kernel, StartedFrom memory call kernel images := by
  unfold bootmStart at h
  cases hkernel : bootGetKernel memory call with
  | none =>
      rw [hkernel] at h
      cases h
  | some found =>
      cases found with
      | none =>
          rw [hkernel] at h
          cases h
          exact Or.inl ⟨rfl, rfl⟩
      | some kernel =>
          simp only [hkernel] at h
          split at h
          · cases h
            exact Or.inl ⟨rfl, rfl⟩
          · rename_i hlength
            split at h
            · split at h
              · cases h
              · cases h
                exact Or.inl ⟨rfl, rfl⟩
              · rename_i rd hramdisk
                cases h
                exact Or.inr ⟨rfl, kernel, hkernel, hlength, rfl, Or.inr hramdisk⟩
            · cases h
              exact Or.inr ⟨rfl, kernel, hkernel, hlength, rfl, Or.inl rfl⟩

/-- What `bootm_load_os` returns. -/
inductive LoadResult where
  | loaded
  /-- `BOOTM_ERR_RESET` -/
  | reset
  /-- `BOOTM_ERR_OVERLAP` -/
  | overlap
  /-- `BOOTM_ERR_UNIMPLEMENTED` -/
  | unimplemented
deriving DecidableEq

/-- `gunzip` from an address and a length to a load address: the memory behind it, and the
length of the result unless it fails. -/
abbrev Gunzip := Memory -> BitVec 32 -> BitVec 32 -> BitVec 32 -> Memory × Option (BitVec 32)

/-- The end of the load area is checked against the image. -/
def loadEnds (os : ImageInfo) (loadEnd : BitVec 32) : LoadResult :=
  if os.load < os.end_ ∧ os.start < loadEnd then .overlap else .loaded

def bootmLoadOs (gunzip : Gunzip) (memory : Memory) (os : ImageInfo) : LoadResult × Memory :=
  if os.comp = compNone then
    let loaded := if os.load = os.start then memory
      else copyMemory memory os.load (memoryRange memory os.imageStart os.imageLen.toNat)
    (loadEnds os (os.load + os.imageLen), loaded)
  else if os.comp = compGzip then
    match gunzip memory os.load os.imageStart os.imageLen with
    | (loaded, none) => (.reset, loaded)
    | (loaded, some length) => (loadEnds os (os.load + length), loaded)
  else (.unimplemented, memory)

inductive Bootm where
  /-- It returns to the prompt. -/
  | returned
  /-- `do_reset` -/
  | reset
  /-- `bootm_start_standalone` -/
  | standalone (images : Headers) (memory : Memory)
  /-- `boot_fn (0, argc, argv, &images)` -/
  | boots (images : Headers) (memory : Memory)

/-- `do_bootm` without a sub-command; `bootOs` tells which entries of `boot_os` are set. -/
def doBootm (gunzip : Gunzip) (bootOs : Byte -> Bool) (memory : Memory) (call : Invocation) :
    Option Bootm :=
  (bootmStart memory call).map (fun started =>
    let images := started.2
    if started.1 ≠ 0 then .returned
    else
      match bootmLoadOs gunzip memory images.os with
      | (.reset, _) => .reset
      | (.unimplemented, _) => .returned
      -- an overlap with a legacy image gives at most a warning
      | (_, loaded) =>
          if images.os.type = typeStandalone then .standalone images loaded
          else if bootOs images.os.os then .boots images loaded
          else .returned)

end Boot
end Bab750
