/-
Host GPUs and the IOMMU groups they are in.

A device can be passed through to a guest only with the rest of its group.  What there
is to know about devices and groups is read of sysfs: a device's directory has its class
and a link to its group, a group's has the names of its devices.
-/
import VMSmith.Types.VM
import Mathlib.Data.List.Sort
import Mathlib.Data.List.Dedup

namespace VMSmith

open Go (trimSpace hasPrefix)

/-- What can be read of files, symbolic links and directories; nothing where it cannot. -/
structure Sysfs where
  readFile : String → Option String
  readlink : String → Option String
  readDir : String → Option (List String)

/-- `pciClassBridgePrefix`. -/
def pciClassBridgePrefix : String := "0x06"

/-- `sort.Strings`. -/
def sortStrings (xs : List String) : List String := xs.insertionSort (· ≤ ·)

namespace Sysfs

def sysfsPCIDevices : String := "/sys/bus/pci/devices"

def sysfsIOMMUGroups : String := "/sys/kernel/iommu_groups"

/-- The directory of a device. -/
def deviceDir (addr : String) : String := sysfsPCIDevices ++ "/" ++ addr

/-- The directory that lists a group. -/
def groupDir (group : Int) : String := sysfsIOMMUGroups ++ "/" ++ toString group ++ "/devices"

variable (s : Sysfs)

def readOptionalSysfsString (path : String) : String :=
  match s.readFile path with
  | some data => trimSpace data
  | none => ""

def readOptionalLinkBase (path : String) : String :=
  match s.readlink path with
  | some target => Go.base target
  | none => ""

def readIOMMUGroup (devDir : String) : Option Int :=
  let base := s.readOptionalLinkBase (devDir ++ "/iommu_group")
  if base = "" then none else Go.atoi base

/-- Whether a group member is passed along. -/
def assignable (addr : String) : Bool :=
  let cls := s.readOptionalSysfsString (deviceDir addr ++ "/class")
  cls ≠ "" ∧ hasPrefix cls pciClassBridgePrefix = false

def groupDevices (group : Int) : List String :=
  match s.readDir (groupDir group) with
  | some entries => sortStrings (entries.filter s.assignable)
  | none => []

/-- The devices a requested one stands for: those of its group, or itself where there is
nothing to be known of the group. -/
def members (addr : String) : List String :=
  match s.readIOMMUGroup (deviceDir addr) with
  | some group =>
      let gm := s.groupDevices group
      if gm ≠ [] then gm else [addr]
  | none => [addr]

/-- `ExpandIOMMUGroups`. -/
def expandIOMMUGroups (addrs : List String) : List String :=
  let seen := addrs.flatMap fun raw =>
    let addr := normalizePCIAddress raw
    if addr = "" then [] else s.members addr
  sortStrings seen.dedup

end Sysfs

/-! ### The kernel's tree -/

/-- A PCI function, by its numbers. -/
structure PCIFunction where
  domain : Nat
  bus : Fin 256
  slot : Fin 32
  function : Fin 8
  deriving DecidableEq, Repr

namespace PCIFunction

def hex (n : Nat) : Char := Nat.digitChar (n % 16)

/-- A domain is written in four digits, or as many as it takes. -/
def domainText (domain : Nat) : List Char := List.leftpad 4 '0' (Nat.toDigits 16 domain)

/-- `bus:slot.function`. -/
def shortText (f : PCIFunction) : List Char :=
  [hex (f.bus / 16), hex f.bus, ':', hex (f.slot / 16), hex f.slot, '.', hex f.function]

/-- The name the kernel gives it. -/
def name (f : PCIFunction) : String := String.ofList (domainText f.domain ++ ':' :: f.shortText)

end PCIFunction

/-- A device, and what of it can be read. -/
structure PCIDevice where
  address : PCIFunction
  /-- The class, as it is written. -/
  cls : String
  group : Option Nat
  classReadable : Bool := true
  linkReadable : Bool := true
  deriving DecidableEq, Repr

namespace PCIDevice

def name (dev : PCIDevice) : String := dev.address.name

def isBridge (dev : PCIDevice) : Bool := hasPrefix (trimSpace dev.cls) pciClassBridgePrefix

end PCIDevice

/-- The devices of a host and their groups. -/
structure Layout where
  devices : List PCIDevice
  /-- Whether a group's directory can be read. -/
  dirReadable : Nat → Bool := fun _ => true
  distinct : (devices.map PCIDevice.name).Nodup
  /-- A class is written. -/
  classed : ∀ dev ∈ devices, trimSpace dev.cls ≠ ""
  /-- Groups are numbered by the kernel's integers. -/
  numbered : ∀ dev ∈ devices, ∀ n, dev.group = some n → n < 2 ^ 31

namespace Layout

variable (L : Layout)

/-- The names of the devices in a group. -/
def entries (n : Nat) : List String :=
  (L.devices.filter fun dev => dev.group = some n).map PCIDevice.name

/-- What sysfs shows of a layout. -/
def sysfs : Sysfs where
  readFile path := do
    let dev ← L.devices.find? fun dev => path = Sysfs.deviceDir dev.name ++ "/class"
    if dev.classReadable then some dev.cls else none
  readlink path := do
    let dev ← L.devices.find? fun dev => path = Sysfs.deviceDir dev.name ++ "/iommu_group"
    let n ← dev.group
    if dev.linkReadable then some ("../../../kernel/iommu_groups/" ++ toString n) else none
  readDir path := do
    let n ← (L.devices.filterMap PCIDevice.group).find? fun n : Nat => path = Sysfs.groupDir n
    if L.dirReadable n then some (L.entries n) else none

end Layout

end VMSmith
