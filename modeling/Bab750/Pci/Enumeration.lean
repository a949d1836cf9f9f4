import Bab750.Foundation.Forest
import Bab750.Pci.Allocation

/-!
# Enumeration

`pci_hose_scan` and `pci_hose_scan_bus` of `drivers/pci/pci.c`, and `pciauto_config_device` with
what it calls in `drivers/pci/pci_auto.c`. The functions that are there are given as a forest in
the order of their numbers, with the bus behind each of them, and a configuration cycle reaches
the function that it names. The controller has no configuration table.
-/

namespace Bab750
namespace Pci

open Foundation

/-!
# Functions
-/

structure BridgeRegisters where
  primaryBus : Byte
  secondaryBus : Byte
  subordinateBus : Byte
  memoryBase : BitVec 16
  memoryLimit : BitVec 16
  prefMemoryBase : BitVec 16
  prefMemoryLimit : BitVec 16
  ioBase : Byte
  ioLimit : Byte
  ioBaseUpper16 : BitVec 16
  ioLimitUpper16 : BitVec 16
deriving Repr, DecidableEq

/-- A function of a device before the scan; `bars` are the answers when all ones are written. -/
structure PciFunction where
  /-- `PCI_DEV` and `PCI_FUNC` -/
  number : Nat
  headerType : Byte
  classDevice : BitVec 16
  classProg : Byte
  command : Word
  bars : List Word
  bridge : BridgeRegisters
deriving Repr, DecidableEq

def pciClassStorageIde : BitVec 16 := 0x0101#16

def pciClassBridgePci : BitVec 16 := 0x0604#16

def pciClassBridgeCardbus : BitVec 16 := 0x0607#16

def pciautoIdeModeMask : Byte := 0x05#8

def pciCommandIo : Word := 0x1#32

def pciCommandMemory : Word := 0x2#32

def pciCommandMaster : Word := 0x4#32

/-!
# Controllers
-/

/-- `pci_mem`, `pci_prefetch` or `pci_io` -/
inductive Space where
  | mem
  | prefetch
  | io
deriving Repr, DecidableEq

/-- `struct pci_controller`, with the regions that its pointers are set to. -/
structure Hose where
  firstBusno : Nat
  currentBusno : Nat
  pciMem : Option Region
  pciPrefetch : Option Region
  pciIo : Option Region
deriving Repr, DecidableEq

def Hose.region (hose : Hose) : Space -> Option Region
  | .mem => hose.pciMem
  | .prefetch => hose.pciPrefetch
  | .io => hose.pciIo

def Hose.setRegion (hose : Hose) (res : Region) : Space -> Hose
  | .mem => { hose with pciMem := some res }
  | .prefetch => { hose with pciPrefetch := some res }
  | .io => { hose with pciIo := some res }

def largestRegion (flags : Word) (regions : List Region) : Option Region :=
  regions.foldl
    (fun best res =>
      if res.flags = flags ∧ best.all (fun old => old.size < res.size) then some res else best)
    none

/-- `pciauto_config_init`, when `pci_prefetch` is not set before. -/
def pciautoConfigInit (firstBusno currentBusno : Nat) (regions : List Region) : Hose where
  firstBusno := firstBusno
  currentBusno := currentBusno
  pciMem := (largestRegion regionMem regions).map pciautoRegionInit
  pciPrefetch := (largestRegion (regionMem ||| regionPrefetch) regions).map pciautoRegionInit
  pciIo := (largestRegion regionIo regions).map pciautoRegionInit

/-- `pciauto_region_allocate`, for a pointer to a region. -/
def Hose.allocate (hose : Hose) (space : Space) (size : Word) : Option Word × Hose :=
  match hose.region space with
  | none => (none, hose)
  | some res =>
      ((pciautoRegionAllocate res size).1,
        hose.setRegion (pciautoRegionAllocate res size).2 space)

/-!
# Base address registers
-/

/-- `PCI_BASE_ADDRESS_SPACE` -/
def isIoBar (response : Word) : Bool := response &&& 0x1#32 ≠ 0#32

/-- A memory register whose type is `PCI_BASE_ADDRESS_MEM_TYPE_64`. -/
def isMem64Bar (response : Word) : Bool :=
  !isIoBar response && response &&& 0x6#32 = 0x4#32

def addressBits (response : Word) : Word :=
  response &&& ~~~(if isIoBar response then 0x3#32 else 0xf#32)

/-- `bar_size`; the value of 64 bits is stored in a `pci_size_t`. -/
def barSize (response upper : Word) : Word :=
  if isIoBar response then (~~~(response &&& ~~~0x3#32) &&& 0xffff#32) + 1#32
  else if isMem64Bar response then
    (~~~((upper ++ response) &&& ~~~0xf#64) + 1#64).setWidth 32
  else ~~~(response &&& ~~~0xf#32) + 1#32

/-- `bar_res` -/
def barSpace (hose : Hose) (response : Word) : Space :=
  if isIoBar response then .io
  else if hose.pciPrefetch.isSome && response &&& 0x8#32 ≠ 0#32 then .prefetch
  else .mem

/-- An allocation for a register, and the address that is written to it. -/
structure BarPass where
  bar : Nat
  response : Word
  space : Space
  /-- The region behind `bar_res`, in front of the allocation. -/
  res : Option Region
  size : Word
  address : Option Word
deriving Repr, DecidableEq

def BarPass.foundMem64 (pass : BarPass) : Bool := isMem64Bar pass.response

/-- What the loop of `pciauto_setup_device` does. -/
structure BarLoop where
  hose : Hose
  /-- The registers that all ones are written to at the head of the loop. -/
  probed : List Nat
  passes : List BarPass
  /-- The registers behind it; of what is written, a register keeps the bits that it has. -/
  bars : List Word
deriving Repr, DecidableEq

/-- The loop from a register on, which may be passed over as the upper half of another. -/
def setupBars : Hose -> Nat -> Bool -> List Word -> BarLoop
  | hose, _, _, [] => ⟨hose, [], [], []⟩
  | hose, bar, true, _ :: rest =>
      let next := setupBars hose (bar + 1) false rest
      { next with bars := 0#32 :: next.bars }
  | hose, bar, false, response :: rest =>
      if response = 0#32 then
        let next := setupBars hose (bar + 1) false rest
        { next with probed := bar :: next.probed, bars := 0#32 :: next.bars }
      else
        let space := barSpace hose response
        let res := hose.region space
        let size := barSize response (rest.headD 0#32)
        match hose.allocate space size with
        | (address, hose) =>
            let next := setupBars hose (bar + 1) (address.isSome && isMem64Bar response) rest
            { next with
              probed := bar :: next.probed
              passes := ⟨bar, response, space, res, size, address⟩ :: next.passes
              bars := (address.getD 0xffffffff#32 &&& response) :: next.bars }

/-- `cmdstat` behind the loop. -/
def setupCommand (command : Word) (passes : List BarPass) : Word :=
  passes.foldl
    (fun cmdstat pass =>
      if pass.address.isSome then
        cmdstat ||| (if isIoBar pass.response then pciCommandIo else pciCommandMemory)
      else cmdstat)
    ((command &&& ~~~(pciCommandIo ||| pciCommandMemory)) ||| pciCommandMaster)

structure Configured where
  function : PciFunction
  probed : List Nat
  passes : List BarPass
  bars : List Word
  command : Word
  /-- The registers, if it is set up as a bridge. -/
  bridge : Option BridgeRegisters
deriving Repr, DecidableEq

def pciautoSetupDevice (hose : Hose) (f : PciFunction) (barsNum : Nat) : Hose × Configured :=
  let loop := setupBars hose 0 false (f.bars.take barsNum)
  (loop.hose,
    ⟨f, loop.probed, loop.passes, loop.bars, setupCommand f.command loop.passes, none⟩)

/-!
# Bridges
-/

/-- The cursors behind `pciauto_region_align`, to 1 MB for memory and to 4 KB for I/O. -/
def Hose.alignRegions (hose : Hose) : Hose where
  firstBusno := hose.firstBusno
  currentBusno := hose.currentBusno
  pciMem := hose.pciMem.map (fun res => pciautoRegionAlign res 0x100000#32)
  pciPrefetch := hose.pciPrefetch.map (fun res => pciautoRegionAlign res 0x100000#32)
  pciIo := hose.pciIo.map (fun res => pciautoRegionAlign res 0x1000#32)

def memWindow (base limit : BitVec 16) : Span :=
  ⟨(base &&& 0xfff0#16).toNat * 2 ^ 16, (limit &&& 0xfff0#16).toNat * 2 ^ 16 + 2 ^ 20⟩

def ioWindow (base limit : Byte) (baseUpper16 limitUpper16 : BitVec 16) : Span :=
  ⟨baseUpper16.toNat * 2 ^ 16 + (base &&& 0xf0#8).toNat * 2 ^ 8,
    limitUpper16.toNat * 2 ^ 16 + (limit &&& 0xf0#8).toNat * 2 ^ 8 + 2 ^ 12⟩

def BridgeRegisters.window (r : BridgeRegisters) : Space -> Span
  | .mem => memWindow r.memoryBase r.memoryLimit
  | .prefetch => memWindow r.prefMemoryBase r.prefMemoryLimit
  | .io => ioWindow r.ioBase r.ioLimit r.ioBaseUpper16 r.ioLimitUpper16

def BridgeRegisters.buses (r : BridgeRegisters) : Span :=
  ⟨r.secondaryBus.toNat, r.subordinateBus.toNat + 1⟩

def busRegister (hose : Hose) (bus : Nat) : Byte := BitVec.ofNat 8 (bus - hose.firstBusno)

/-- `cmdstat` in `pciauto_prescan_setup_bridge` -/
def bridgeCommand (hose : Hose) (command : Word) : Word :=
  command |||
    (if hose.pciMem.isSome || hose.pciPrefetch.isSome then pciCommandMemory else 0#32) |||
    (if hose.pciIo.isSome then pciCommandIo else 0#32) ||| pciCommandMaster

def pciautoPrescanSetupBridge (hose : Hose) (bus subBus : Nat) (r : BridgeRegisters) :
    Hose × BridgeRegisters :=
  let hose := hose.alignRegions
  (hose, {
    primaryBus := busRegister hose bus
    secondaryBus := busRegister hose subBus
    subordinateBus := 0xff#8
    memoryBase :=
      match hose.pciMem with
      | some res => ((res.busLower &&& 0xfff00000#32) >>> 16).setWidth 16
      | none => r.memoryBase
    memoryLimit := r.memoryLimit
    prefMemoryBase :=
      match hose.pciPrefetch with
      | some res => ((res.busLower &&& 0xfff00000#32) >>> 16).setWidth 16
      | none => 0x1000#16
    prefMemoryLimit := if hose.pciPrefetch.isSome then r.prefMemoryLimit else 0#16
    ioBase :=
      match hose.pciIo with
      | some res => ((res.busLower &&& 0x0000f000#32) >>> 8).setWidth 8
      | none => r.ioBase
    ioLimit := r.ioLimit
    ioBaseUpper16 :=
      match hose.pciIo with
      | some res => ((res.busLower &&& 0xffff0000#32) >>> 16).setWidth 16
      | none => r.ioBaseUpper16
    ioLimitUpper16 := r.ioLimitUpper16 })

def pciautoPostscanSetupBridge (hose : Hose) (subBus : Nat) (r : BridgeRegisters) :
    Hose × BridgeRegisters :=
  let hose := hose.alignRegions
  (hose, { r with
    subordinateBus := busRegister hose subBus
    memoryLimit :=
      match hose.pciMem with
      | some res => ((res.busLower - 1#32) >>> 16).setWidth 16
      | none => r.memoryLimit
    prefMemoryLimit :=
      match hose.pciPrefetch with
      | some res => ((res.busLower - 1#32) >>> 16).setWidth 16
      | none => r.prefMemoryLimit
    ioLimit :=
      match hose.pciIo with
      | some res => (((res.busLower - 1#32) &&& 0x0000f000#32) >>> 8).setWidth 8
      | none => r.ioLimit
    ioLimitUpper16 :=
      match hose.pciIo with
      | some res => (((res.busLower - 1#32) &&& 0xffff0000#32) >>> 16).setWidth 16
      | none => r.ioLimitUpper16 })

/-!
# The scan
-/

/-- What a scan of a bus leaves behind; what it does not come to is not configured. -/
structure Scanned where
  hose : Hose
  subBus : Nat
  tree : Forest (Option Configured)
deriving DecidableEq

structure DeviceScanned where
  hose : Hose
  subBus : Nat
  configured : Configured
  behind : Forest (Option Configured)
deriving DecidableEq

def unscanned (forest : Forest PciFunction) : Forest (Option Configured) :=
  forest.map (fun _ => none)

def pciautoConfigDevice (scanBus : Hose -> Nat -> Scanned) (hose : Hose) (bus : Nat)
    (f : PciFunction) (behind : Forest PciFunction) : DeviceScanned :=
  if f.classDevice = pciClassBridgePci then
    let hose := { hose with currentBusno := hose.currentBusno + 1 }
    match pciautoSetupDevice hose f 2 with
    | (hose, device) =>
        match pciautoPrescanSetupBridge hose bus hose.currentBusno f.bridge with
        | (hose, r) =>
            let scanned := scanBus hose hose.currentBusno
            match pciautoPostscanSetupBridge scanned.hose (max scanned.subBus bus) r with
            | (hose', r) =>
                ⟨hose', hose'.currentBusno, { device with
                  command := bridgeCommand hose device.command
                  bridge := some r }, scanned.tree⟩
  else if f.classDevice = pciClassStorageIde ∧ f.classProg &&& pciautoIdeModeMask = 0#8 then
    ⟨hose, bus, ⟨f, [], [], [], f.command, none⟩, unscanned behind⟩
  else if f.classDevice = pciClassBridgeCardbus then
    match pciautoSetupDevice hose f 0 with
    | (hose, device) =>
        ⟨{ hose with currentBusno := hose.currentBusno + 1 }, bus, device, unscanned behind⟩
  else
    match pciautoSetupDevice hose f 6 with
    | (hose, device) => ⟨hose, bus, device, unscanned behind⟩

/-- The scan passes the function over; the last number of a bus is not looked at. -/
def skipsDev (hose : Hose) (bus : Nat) (foundMulti : Bool) (f : PciFunction) : Bool :=
  f.number = 255 || (bus = hose.firstBusno && f.number = 0) ||
    (f.number % 8 ≠ 0 && !foundMulti)

/-- `found_multi` behind a function. -/
def nextMulti (foundMulti : Bool) (f : PciFunction) : Bool :=
  if f.number % 8 = 0 then f.headerType &&& 0x80#8 ≠ 0#8 else foundMulti

def pciHoseScanBus : Hose -> Nat -> Nat -> Bool -> Forest PciFunction -> Scanned
  | hose, _, subBus, _, .empty => ⟨hose, subBus, .empty⟩
  | hose, bus, subBus, foundMulti, .node f behind rest =>
      if skipsDev hose bus foundMulti f then
        let scanned := pciHoseScanBus hose bus subBus foundMulti rest
        { scanned with tree := .node none (unscanned behind) scanned.tree }
      else
        let device := pciautoConfigDevice
          (fun hose bus => pciHoseScanBus hose bus bus false behind) hose bus f behind
        let scanned := pciHoseScanBus device.hose bus (max subBus device.subBus)
          (nextMulti foundMulti f) rest
        { scanned with tree := .node (some device.configured) device.behind scanned.tree }

def pciHoseScan (firstBusno currentBusno : Nat) (regions : List Region)
    (forest : Forest PciFunction) : Scanned :=
  let hose := pciautoConfigInit firstBusno (max firstBusno currentBusno) regions
  pciHoseScanBus hose hose.currentBusno hose.currentBusno false forest

end Pci
end Bab750
