/-
What a daemon is started with, and what its host is like.

`Host` is the part of the machine the daemon reads and never changes: the QEMU
binary, the machine type libvirt's capabilities name, which image files exist,
IOMMU groups, and the cipher that seals console passwords.
-/
import VMSmith.Lib.CIDR
import VMSmith.Lib.Path
import VMSmith.Lib.GoStrings

namespace VMSmith

/-- A directory VM disk directories can live under. -/
structure DiskLocation where
  name : String
  path : HostPath
  deriving DecidableEq, Repr

structure StorageConfig where
  imagesDir : HostPath := ["var", "lib", "vmsmith", "images"]
  baseDir : HostPath := ["var", "lib", "vmsmith", "vms"]
  virtioWinISO : String := ""
  diskLocations : List DiskLocation := []
  diskLocationRoots : List HostPath := []
  deriving DecidableEq, Repr

structure NetworkConfig where
  name : String := "vmsmith-net"
  subnet : String := "192.168.100.0/24"
  dhcpStart : String := "192.168.100.10"
  dhcpEnd : String := "192.168.100.254"
  deriving DecidableEq, Repr

structure DefaultsConfig where
  cpus : Nat := 2
  ramMB : Nat := 2048
  diskGB : Nat := 20
  deriving DecidableEq, Repr

structure Config where
  storage : StorageConfig := {}
  network : NetworkConfig := {}
  defaults : DefaultsConfig := {}
  /-- `daemon.console.password_key`. -/
  passwordKey : String := ""
  deriving DecidableEq, Repr

/-- Authenticated encryption of console passwords: a key opens what it has sealed, and
what is sealed is never empty. -/
structure Cipher where
  sealed : String → Nat → String → String
  opened : String → String → Option String
  open_seal : ∀ key nonce plain, opened key (sealed key nonce plain) = some plain
  seal_ne : ∀ key nonce plain, sealed key nonce plain ≠ ""

/-- A cipher that only marks what it seals. -/
def Cipher.marking : Cipher where
  sealed := fun _ _ plain => String.ofList ('#' :: plain.toList)
  opened := fun _ blob =>
    match blob.toList with
    | '#' :: plain => some (String.ofList plain)
    | _ => none
  open_seal := by simp
  seal_ne := by
    intro _ _ plain h
    have := congrArg String.toList h
    simp at this

structure Host where
  /-- `detectQEMUBinary`. -/
  emulator : String := "/usr/bin/qemu-system-x86_64"
  /-- `detectMachineType`. -/
  machineType : String := "pc-q35-6.2"
  /-- Whether an image file outside the VM directories exists. -/
  fileExists : String → Bool
  swtpm : Bool := true
  ovmf : Bool := true
  ovmfSecboot : Bool := true
  /-- `ExpandIOMMUGroups`. -/
  expandIOMMUGroups : List String → List String
  cipher : Cipher

/-- A daemon on its host. -/
structure Daemon where
  cfg : Config := {}
  host : Host

/-- A daemon with the default configuration, on a host with no images and no devices. -/
def Daemon.plain : Daemon where
  host := { fileExists := fun _ => false, expandIOMMUGroups := id, cipher := .marking }

/-- `gatewayFromSubnet`: the first host address, or nothing for a bad subnet. -/
def gatewayFromSubnet (subnet : String) : String :=
  match Net.splitCIDR subnet with
  | some net => (Net.firstHost net).text
  | none => ""

example : gatewayFromSubnet "192.168.100.0/24" = "192.168.100.1" := by decide

end VMSmith
