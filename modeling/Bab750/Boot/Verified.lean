import Bab750.Boot.Subcommands

/-!
# What bootm starts

Between the checks and the call of the operating system, `do_bootm` changes the memory once:
it moves the kernel to its load address.
-/

namespace Bab750
namespace Boot

open Foundation
open Support

/-- The bytes are the payload of an image whose checksums are right, or a part of it when the
image has several components. -/
def CheckedPart (memory : Memory) (hdr : BitVec 32) (bytes : List Byte) : Prop :=
  imageCheckHcrc (headerAt memory hdr) = true ∧ imageCheckDcrc memory hdr = true ∧
    exists front behind, imagePayload memory hdr = front ++ bytes ++ behind ∧
      (imageGetType (headerAt memory hdr) ≠ typeMulti -> front = [] ∧ behind = [])

def ComponentInside (memory : Memory) (hdr : BitVec 32) (idx : Nat) : Prop :=
  forall data length, imageMultiGetimg memory hdr idx = some (data, length) ->
    length ≠ 0#32 -> exists offset, data = imageGetData hdr + BitVec.ofNat 32 offset ∧
      offset + length.toNat <= (imageGetSize (headerAt memory hdr)).toNat

/-- The image whose payload `boot_get_ramdisk` passes on. -/
def ramdiskHdr (call : Invocation) (images : Headers) : BitVec 32 :=
  match call.argv[2]? with
  | some text => (simpleStrtoul text 16).1
  | none => images.legacyHdrOs

def RamdiskApart (images : Headers) : Prop :=
  forall i j, i < (images.rdEnd - images.rdStart).toNat -> j < images.os.imageLen.toNat ->
    images.rdStart + BitVec.ofNat 32 i ≠ images.os.load + BitVec.ofNat 32 j

theorem checkedPart_inside {memory : Memory} {hdr : BitVec 32} {offset count : Nat}
    (hhcrc : imageCheckHcrc (headerAt memory hdr) = true)
    (hdcrc : imageCheckDcrc memory hdr = true)
    (hinside : offset + count <= (imageGetSize (headerAt memory hdr)).toNat)
    (hwhole : imageGetType (headerAt memory hdr) ≠ typeMulti ->
      offset = 0 ∧ count = (imageGetSize (headerAt memory hdr)).toNat) :
    CheckedPart memory hdr
      (memoryRange memory (imageGetData hdr + BitVec.ofNat 32 offset) count) := by
  refine ⟨hhcrc, hdcrc, memoryRange memory (imageGetData hdr) offset,
    memoryRange memory (imageGetData hdr + BitVec.ofNat 32 (offset + count))
      ((imageGetSize (headerAt memory hdr)).toNat - (offset + count)), ?_, ?_⟩
  · rw [← memoryRange_add, ← memoryRange_add]
    unfold imagePayload
    congr 1
    omega
  · intro htype
    rcases hwhole htype with ⟨rfl, hcount⟩
    rw [hcount, Nat.zero_add, Nat.sub_self]
    exact ⟨rfl, rfl⟩

theorem checkedPart_whole {memory : Memory} {hdr : BitVec 32}
    (hhcrc : imageCheckHcrc (headerAt memory hdr) = true)
    (hdcrc : imageCheckDcrc memory hdr = true) :
    CheckedPart memory hdr (imagePayload memory hdr) := by
  refine ⟨hhcrc, hdcrc, [], [], ?_, fun _ => ⟨rfl, rfl⟩⟩
  rw [List.nil_append, List.append_nil]

theorem bootmStart_ok {memory : Memory} {call : Invocation} {images : Headers}
    (h : bootmStart memory call = some (0, images)) :
    exists kernel, StartedFrom memory call kernel images := by
  rcases bootmStart_cases h with ⟨hret, _⟩ | ⟨_, hstarted⟩
  · cases hret
  · exact hstarted

theorem doBootm_boots {gunzip : Gunzip} {bootOs : Byte -> Bool} {memory loaded : Memory}
    {call : Invocation} {images : Headers}
    (h : doBootm gunzip bootOs memory call = some (.boots images loaded)) :
    bootmStart memory call = some (0, images) ∧ images.os.type ≠ typeStandalone ∧
      loaded = (bootmLoadOs gunzip memory images.os).2 := by
  unfold doBootm at h
  rcases Option.map_eq_some_iff.mp h with ⟨started, hstart, hboots⟩
  simp only at hboots
  split at hboots
  · cases hboots
  · rename_i hret
    split at hboots
    · cases hboots
    · cases hboots
    · rename_i result memory' hload
      split at hboots
      · cases hboots
      · rename_i htype
        split at hboots
        · cases hboots
          rw [hload]
          refine ⟨?_, htype, rfl⟩
          rw [hstart, ← Decidable.not_not.mp hret]
        · cases hboots

theorem imageGetKernel_checked {memory : Memory} {hdr : BitVec 32}
    (h : imageGetKernel memory hdr true = true) :
    imageCheckHcrc (headerAt memory hdr) = true ∧ imageCheckDcrc memory hdr = true := by
  simp only [imageGetKernel, Bool.and_eq_true, Bool.not_true, Bool.false_or] at h
  exact ⟨h.left.left.right, h.left.right⟩

theorem imageGetRamdisk_checked {memory : Memory} {hdr : BitVec 32}
    (h : imageGetRamdisk memory hdr true = true) :
    imageCheckHcrc (headerAt memory hdr) = true ∧ imageCheckDcrc memory hdr = true ∧
      imageGetType (headerAt memory hdr) = typeRamdisk := by
  simp only [imageGetRamdisk, Bool.and_eq_true, Bool.not_true, Bool.false_or,
    decide_eq_true_eq] at h
  exact ⟨h.left.left.left.left.right, h.left.left.left.right, h.right⟩

theorem bootGetKernel_checked {memory : Memory} {call : Invocation} {kernel : Kernel}
    (h : bootGetKernel memory call = some (some kernel)) (hverify : call.verify = true)
    (hlength : kernel.osLen ≠ 0#32)
    (hinside : imageGetType (headerAt memory (kernelAddress call)) = typeMulti ->
      ComponentInside memory (kernelAddress call) 0) :
    kernel.hdr = kernelAddress call ∧
      CheckedPart memory kernel.hdr (memoryRange memory kernel.osData kernel.osLen.toNat) := by
  unfold bootGetKernel at h
  rw [hverify] at h
  simp only at h
  split at h
  · rename_i hkernel
    rcases imageGetKernel_checked hkernel with ⟨hhcrc, hdcrc⟩
    split at h
    · rename_i htype
      cases h
      refine ⟨rfl, ?_⟩
      exact checkedPart_whole hhcrc hdcrc
    · split at h
      · rename_i hmulti
        rcases Option.map_eq_some_iff.mp h with ⟨img, himg, hsame⟩
        cases hsame
        rcases hinside hmulti img.1 img.2 himg hlength with ⟨offset, hdata, hend⟩
        refine ⟨rfl, ?_⟩
        show CheckedPart _ _ (memoryRange memory img.1 img.2.toNat)
        rw [hdata]
        exact checkedPart_inside hhcrc hdcrc hend (fun hother => absurd hmulti hother)
      · cases h
  · cases h

theorem bootGetRamdisk_checked {memory : Memory} {call : Invocation} {kernel : Kernel}
    {rdStart rdEnd : BitVec 32}
    (hverify : call.verify = true) (hhdr : kernel.hdr = kernelAddress call)
    (hhcrc : imageCheckHcrc (headerAt memory kernel.hdr) = true)
    (hdcrc : imageCheckDcrc memory kernel.hdr = true)
    (hinside : imageGetType (headerAt memory (kernelAddress call)) = typeMulti ->
      ComponentInside memory (kernelAddress call) 1)
    (h : bootGetRamdisk memory call (kernelHeaders memory call.verify kernel) =
      some (some (rdStart, rdEnd))) (hpassed : rdStart ≠ 0#32) :
    CheckedPart memory (ramdiskHdr call (kernelHeaders memory call.verify kernel))
      (memoryRange memory rdStart (rdEnd - rdStart).toNat) := by
  unfold bootGetRamdisk at h
  rcases Option.map_eq_some_iff.mp h with ⟨found, hfound, hmap⟩
  rcases Option.map_eq_some_iff.mp hmap with ⟨rd, rfl, hrd⟩
  by_cases hnone : rd.1 = 0#32
  · rw [if_pos hnone] at hrd
    cases hrd
    exact absurd rfl hpassed
  · rw [if_neg hnone] at hrd
    cases hrd
    have hcount : rd.1 + rd.2 - rd.1 = rd.2 := by
      rw [BitVec.add_comm, BitVec.add_sub_cancel]
    rw [hcount]
    unfold ramdiskData at hfound
    split at hfound
    · rename_i text hargument
      split at hfound
      · cases hfound
        exact absurd rfl hnone
      · simp only [kernelHeaders, hverify] at hfound
        split at hfound
        · rename_i hramdisk
          cases hfound
          rcases imageGetRamdisk_checked hramdisk with ⟨hhcrc, hdcrc, htype⟩
          rw [ramdiskHdr, hargument]
          exact checkedPart_whole hhcrc hdcrc
        · cases hfound
    · rename_i hargument
      split at hfound
      · rename_i hmulti
        rcases Option.map_eq_some_iff.mp hfound with ⟨img, himg, hsame⟩
        cases hsame
        have htype : imageGetType (headerAt memory kernel.hdr) = typeMulti := hmulti.right
        rw [ramdiskHdr, hargument]
        show CheckedPart memory kernel.hdr (memoryRange memory rd.1 rd.2.toNat)
        by_cases hempty : rd.2 = 0#32
        · rw [hempty]
          have hinside : 0 + 0 <= (imageGetSize (headerAt memory kernel.hdr)).toNat :=
            Nat.zero_le _
          exact checkedPart_inside hhcrc hdcrc hinside (fun hother => absurd htype hother)
        · have himg' : imageMultiGetimg memory (kernelAddress call) 1 = some (rd.1, rd.2) := by
            rw [← hhdr]
            exact himg
          rcases hinside (by rw [← hhdr]; exact htype) rd.1 rd.2 himg' hempty with
            ⟨offset, hdata, hend⟩
          rw [← hhdr] at hdata hend
          rw [hdata]
          exact checkedPart_inside hhcrc hdcrc hend (fun hother => absurd htype hother)
      · cases hfound
        exact absurd rfl hnone

/-- What is started is what was checked, when the components of a multi-file image lie in its
payload and the load area stays away from the ramdisk. -/
theorem bootm_boots_checked {gunzip : Gunzip} {bootOs : Byte -> Bool}
    {memory loaded : Memory} {call : Invocation} {images : Headers}
    (h : doBootm gunzip bootOs memory call = some (.boots images loaded))
    (hverify : call.verify = true) (hcomp : images.os.comp = compNone)
    (hload : images.os.load ≠ images.os.start)
    (hinside : imageGetType (headerAt memory (kernelAddress call)) = typeMulti ->
      ComponentInside memory (kernelAddress call) 0 ∧
        ComponentInside memory (kernelAddress call) 1) :
    images.os.start = kernelAddress call ∧
      CheckedPart memory images.os.start
        (memoryRange loaded images.os.load images.os.imageLen.toNat) ∧
      images.ep = imageGetEp (headerAt memory images.os.start) ∧
      (images.rdStart ≠ 0#32 -> RamdiskApart images ->
        CheckedPart memory (ramdiskHdr call images)
          (memoryRange loaded images.rdStart (images.rdEnd - images.rdStart).toNat)) := by
  rcases doBootm_boots h with ⟨hstart, _, hloaded⟩
  rcases bootmStart_ok hstart with ⟨kernel, hkernel, hlength, himages, hramdisk⟩
  rcases bootGetKernel_checked hkernel hverify hlength (fun hmulti => (hinside hmulti).left)
    with ⟨hhdr, hpart⟩
  have hos : images.os = (kernelHeaders memory call.verify kernel).os := by
    rw [himages]
  have hmoved : loaded = copyMemory memory images.os.load
      (memoryRange memory images.os.imageStart images.os.imageLen.toNat) := by
    rw [hloaded, bootmLoadOs, if_pos hcomp]
    exact if_neg hload
  have hbound : (memoryRange memory images.os.imageStart images.os.imageLen.toNat).length <=
      2 ^ 32 := by
    rw [memoryRange_length]
    exact images.os.imageLen.isLt.le
  have hkernelAt : memoryRange loaded images.os.load images.os.imageLen.toNat =
      memoryRange memory images.os.imageStart images.os.imageLen.toNat := by
    have hread := memoryRange_copyMemory memory images.os.load _ hbound
    rw [memoryRange_length] at hread
    rw [hmoved]
    exact hread
  refine ⟨?_, ?_, ?_, ?_⟩
  · rw [hos]
    exact hhdr
  · rw [hkernelAt, hos]
    exact hpart
  · rw [himages]
    rfl
  · intro hpassed hapart
    have hkept : memoryRange loaded images.rdStart (images.rdEnd - images.rdStart).toNat =
        memoryRange memory images.rdStart (images.rdEnd - images.rdStart).toNat := by
      rw [hmoved]
      apply memoryRange_copyMemory_outside
      intro i j hi hj
      rw [memoryRange_length] at hj
      exact hapart i j hi hj
    have hfrom : ramdiskHdr call images =
        ramdiskHdr call (kernelHeaders memory call.verify kernel) := by
      rw [himages]
      rfl
    rw [hkept, hfrom]
    exact bootGetRamdisk_checked hverify hhdr hpart.left hpart.right.left
      (fun hmulti => (hinside hmulti).right) (hramdisk.resolve_left hpassed) hpassed

/-!
# A kernel and a ramdisk
-/

theorem doBootm_uncompressed (gunzip : Gunzip) {bootOs : Byte -> Bool} {memory : Memory}
    {call : Invocation} {images : Headers} (hstart : bootmStart memory call = some (0, images))
    (hcomp : images.os.comp = compNone) (hload : images.os.load ≠ images.os.start)
    (htype : images.os.type ≠ typeStandalone) (hos : bootOs images.os.os = true) :
    doBootm gunzip bootOs memory call = some (.boots images (copyMemory memory images.os.load
      (memoryRange memory images.os.imageStart images.os.imageLen.toNat))) := by
  unfold doBootm bootmLoadOs loadEnds
  rw [hstart, Option.map_some]
  simp only [ne_eq, not_true_eq_false, if_false, if_pos hcomp, if_neg hload, if_neg htype,
    hos, if_true]
  split
  · rename_i heq
    split at heq <;> cases heq
  · rename_i heq
    split at heq <;> cases heq
  · rename_i heq
    cases heq
    rfl

def ramdiskFields : HeaderFields where
  time := 0#32
  load := 0#32
  ep := 0#32
  os := osLinux
  arch := archPpc
  type := typeRamdisk
  comp := compNone
  name := List.replicate 32 0#8
  nameLength := rfl

def bootMemory (load : BitVec 32) : Memory :=
  copyMemory (copyMemory (fun _ => 0#8) 0x200000#32 (legacyImage ramdiskFields (ascii "initrd")))
    0x100000#32 (legacyImage { sampleFields with load := load } (ascii "kernel"))

def bootInvocation : Invocation where
  argv := [ascii "bootm", ascii "100000", ascii "200000"]
  verify := true
  loadAddr := 0x100000#32

def bootImages (load : BitVec 32) : Headers :=
  { kernelHeaders (bootMemory load) true ⟨0x100000#32, 0x100040#32, 6#32⟩ with
    rdStart := 0x200040#32
    rdEnd := 0x200046#32
    state := stateStart }

def bootOsTable (os : Byte) : Bool := os = 2#8 ∨ os = 5#8 ∨ os = 14#8 ∨ os = 16#8 ∨ os = 18#8

theorem bootImages_found (load : BitVec 32)
    (hload : load = 0x400000#32 ∨ load = 0x200040#32) :
    bootmStart (bootMemory load) bootInvocation = some (0, bootImages load) ∧
      (bootImages load).os.comp = compNone ∧ (bootImages load).os.load = load ∧
      (bootImages load).os.load ≠ (bootImages load).os.start ∧
      (bootImages load).os.type ≠ typeStandalone ∧
      bootOsTable (bootImages load).os.os = true := by
  rcases hload with rfl | rfl
  · decide +kernel
  · decide +kernel

theorem bootm_boots_checked_apart :
    CheckedPart (bootMemory 0x400000#32) 0x200000#32 (ascii "initrd") := by
  rcases bootImages_found 0x400000#32 (Or.inl rfl) with
    ⟨hstart, hcomp, hload, hmoved, htype, hos⟩
  have hboots := doBootm_uncompressed samplePlatform.gunzip hstart hcomp hmoved htype hos
  have hsingle : imageGetType (headerAt (bootMemory 0x400000#32)
      (kernelAddress bootInvocation)) ≠ typeMulti := by
    decide +kernel
  have hchecked := bootm_boots_checked hboots rfl hcomp hmoved
    (fun hmulti => absurd hmulti hsingle)
  have hapart : RamdiskApart (bootImages 0x400000#32) := by
    intro i j hi hj hmeet
    have hi : i < 6 := hi
    have hj : j < 6 := hj
    rw [hload] at hmeet
    have hplace := congrArg BitVec.toNat hmeet
    simp only [bootImages, BitVec.toNat_add, BitVec.toNat_ofNat] at hplace
    omega
  have hramdisk := hchecked.right.right.right (by decide) hapart
  have hbytes : memoryRange (copyMemory (bootMemory 0x400000#32)
      (bootImages 0x400000#32).os.load (memoryRange (bootMemory 0x400000#32)
        (bootImages 0x400000#32).os.imageStart (bootImages 0x400000#32).os.imageLen.toNat))
      (bootImages 0x400000#32).rdStart
      ((bootImages 0x400000#32).rdEnd - (bootImages 0x400000#32).rdStart).toNat =
        ascii "initrd" := by
    decide +kernel
  have hfrom : ramdiskHdr bootInvocation (bootImages 0x400000#32) = 0x200000#32 := by
    decide +kernel
  rw [hbytes, hfrom] at hramdisk
  exact hramdisk

/-- A kernel whose load area covers the ramdisk is started with the ramdisk lost. -/
theorem bootm_overwrites_ramdisk :
    ¬ (forall (gunzip : Gunzip) (bootOs : Byte -> Bool) (memory loaded : Memory)
        (call : Invocation) (images : Headers),
      doBootm gunzip bootOs memory call = some (.boots images loaded) ->
        call.verify = true -> images.os.comp = compNone ->
        images.os.load ≠ images.os.start -> images.rdStart ≠ 0#32 ->
        memoryRange loaded images.rdStart (images.rdEnd - images.rdStart).toNat =
          memoryRange memory images.rdStart (images.rdEnd - images.rdStart).toNat) := by
  intro hclaim
  rcases bootImages_found 0x200040#32 (Or.inr rfl) with
    ⟨hstart, hcomp, _, hmoved, htype, hos⟩
  have hboots := doBootm_uncompressed samplePlatform.gunzip hstart hcomp hmoved htype hos
  have hsame := hclaim _ _ _ _ _ _ hboots rfl hcomp hmoved (by decide)
  revert hsame
  decide +kernel

def shortPayload : List Byte := wordBytes 0x100#32 ++ wordBytes 0#32 ++ ascii "kernel"

def shortMemory : Memory :=
  copyMemory (fun _ => 0#8) 0x100000#32
    (legacyImage { sampleFields with type := typeMulti } shortPayload)

def shortInvocation : Invocation where
  argv := [ascii "bootm", ascii "100000"]
  verify := true
  loadAddr := 0x100000#32

def shortImages : Headers :=
  { kernelHeaders shortMemory true ⟨0x100000#32, 0x100048#32, 0x100#32⟩ with
    state := stateStart }

theorem shortImages_found :
    bootmStart shortMemory shortInvocation = some (0, shortImages) ∧
      shortImages.os.comp = compNone ∧ shortImages.os.load ≠ shortImages.os.start ∧
      shortImages.os.type ≠ typeStandalone ∧ bootOsTable shortImages.os.os = true ∧
      shortImages.os.imageLen = 0x100#32 ∧
      imageGetSize (headerAt shortMemory shortImages.os.start) = 14#32 := by
  decide +kernel

/-- The size of a component is not compared with the payload: bytes behind it are started. -/
theorem bootm_boots_unchecked :
    ¬ (forall (gunzip : Gunzip) (bootOs : Byte -> Bool) (memory loaded : Memory)
        (call : Invocation) (images : Headers),
      doBootm gunzip bootOs memory call = some (.boots images loaded) ->
        call.verify = true -> images.os.comp = compNone ->
        images.os.load ≠ images.os.start ->
        CheckedPart memory images.os.start
          (memoryRange loaded images.os.load images.os.imageLen.toNat)) := by
  intro hclaim
  rcases shortImages_found with ⟨hstart, hcomp, hmoved, htype, hos, hlength, hsize⟩
  have hboots := doBootm_uncompressed samplePlatform.gunzip hstart hcomp hmoved htype hos
  rcases (hclaim _ _ _ _ _ _ hboots rfl hcomp hmoved).right.right with
    ⟨front, behind, hpayload, _⟩
  have htotal := congrArg List.length hpayload
  rw [imagePayload, hsize, hlength] at htotal
  simp only [List.length_append, memoryRange_length, BitVec.toNat_ofNat] at htotal
  omega

end Boot
end Bab750
