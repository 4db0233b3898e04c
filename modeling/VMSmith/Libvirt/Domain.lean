/-
Domain definitions.

`DomainParams` is what the XML template is filled with and `DomainXML` what the
filled template says.  A definition is kept as that record rather than as text:
two definitions are the same exactly when the template renders the same document,
and an attribute holds the value it denotes, not its escaped spelling.
-/
import VMSmith.Config
import VMSmith.Types.VM

namespace VMSmith

/-- One `<interface>` element. -/
structure InterfaceXML where
  kind : String
  source : String
  mac : String
  model : String
  deriving DecidableEq, Repr

/-- A file-backed cdrom and its target device. -/
structure CdromXML where
  source : HostPath ⊕ String
  target : String
  deriving DecidableEq, Repr

/-- What `GenerateDomainXML` renders. -/
structure DomainXML where
  name : String
  uuid : Option Nat
  ramMB : Nat
  cpus : Nat
  firmwareAttr : String
  /-- The firmware feature block: whether Secure Boot is on in it. -/
  firmwareFeature : Option Bool
  machine : String
  hyperv : Bool
  clockOffset : String
  emulator : String
  diskPath : HostPath
  diskTarget : String
  diskBus : String
  cloudInit : CdromXML
  virtioWin : Option CdromXML
  /-- With an installer the boot order is given per device. -/
  installISO : Option CdromXML
  interfaces : List InterfaceXML
  tablet : Bool
  videoModel : String
  vncPassword : String
  tpm : Bool
  hostdevs : List PCIAddress
  deriving DecidableEq, Repr

structure DomainParams where
  name : String
  uuid : Option Nat := none
  cpus : Nat
  ramMB : Nat
  diskPath : HostPath
  cloudInitISO : HostPath
  interfaces : List InterfaceXML
  machine : String
  emulator : String
  diskBus : String := ""
  diskTarget : String := ""
  cloudInitTarget : String := ""
  virtioWinISO : String := ""
  virtioWinTarget : String := ""
  clockOffset : String := ""
  hyperv : Bool := false
  tablet : Bool := false
  videoModel : String := ""
  firmwareAttr : String := ""
  secureBoot : Bool := false
  tpm : Bool := false
  installISO : String := ""
  installISOTarget : String := ""
  vncPassword : String := ""
  gpuAddresses : List String := []
  deriving DecidableEq, Repr

/-- The interface of one extra attachment, if it is well formed. -/
def attachmentXML (networkName nicModel : String) (net : NetworkAttachment) : Option InterfaceXML :=
  match net.mode with
  | .macvtap | .other "" =>
      if net.hostInterface = "" then none
      else some ⟨"direct", net.hostInterface, net.macAddress, nicModel⟩
  | .bridge =>
      let bridge := if net.bridge = "" then "br-" ++ net.hostInterface else net.bridge
      some ⟨"bridge", bridge, net.macAddress, nicModel⟩
  | .nat => some ⟨"network", networkName, net.macAddress, nicModel⟩
  | .other _ => none

namespace DomainParams

/-- The device profile of Windows guests. -/
def tuneWindows (p : DomainParams) : DomainParams :=
  { p with
    diskBus := "sata"
    diskTarget := "sda"
    cloudInitTarget := "sdb"
    virtioWinTarget := "sdc"
    hyperv := true
    tablet := true
    videoModel := "qxl" }

/-- The disk bus; a bus other than the profile's own moves the disk's target and the
provisioning cdrom out of its way. -/
def applyDiskBus (p : DomainParams) (bus : String) : DomainParams :=
  if bus = p.diskBus then p
  else if bus = "virtio" then { p with diskBus := bus, diskTarget := "vda", cloudInitTarget := "sda" }
  else if bus = "sata" then { p with diskBus := bus, diskTarget := "sda", cloudInitTarget := "sdb" }
  else { p with diskBus := bus }

/-- `DomainParamsFromSpec`. -/
def fromSpec (h : Host) (spec : VMSpec) (diskPath cloudInitISO : HostPath)
    (networkName natMAC : String) : DomainParams :=
  let nicModel := spec.resolvedNICModel
  let base : DomainParams :=
    { name := spec.name
      cpus := spec.cpus
      ramMB := spec.ramMB
      diskPath := diskPath
      cloudInitISO := cloudInitISO
      interfaces := ⟨"network", networkName, natMAC, nicModel⟩ ::
        spec.networks.filterMap (attachmentXML networkName nicModel)
      machine := if Go.trimSpace spec.machine ≠ "" then Go.trimSpace spec.machine else "pc-q35-6.2"
      emulator := h.emulator
      gpuAddresses := spec.resolvedGPUs }
  let tuned := if spec.isWindows then base.tuneWindows else base
  let bussed := { tuned with clockOffset := spec.resolvedClockOffset }.applyDiskBus
    spec.resolvedDiskBus
  { bussed with
    firmwareAttr := spec.resolvedFirmwareAttr
    secureBoot := spec.resolvedSecureBoot
    tpm := spec.resolvedTPM
    installISO := spec.installISO
    installISOTarget := if spec.installISO = "" then "" else "sdd" }

/-- `resolveMachine`: the operator's override, or what the host's capabilities name. -/
def resolveMachine (specMachine fallback : String) : String :=
  if Go.trimSpace specMachine ≠ "" then Go.trimSpace specMachine else fallback

/-- `virtioWinISOPathForSpec`: the override, the configured file, the usual place. -/
def virtioWinISOPath (d : Daemon) (spec : VMSpec) : String :=
  let override := Go.trimSpace spec.virtioWinISO
  let configured := Go.trimSpace d.cfg.storage.virtioWinISO
  let usual := "/usr/share/virtio-win/virtio-win.iso"
  if override ≠ "" ∧ d.host.fileExists override then override
  else if configured ≠ "" then if d.host.fileExists configured then configured else ""
  else if d.host.fileExists usual then usual
  else ""

/-- `applyVirtioWin`. -/
def applyVirtioWin (d : Daemon) (spec : VMSpec) (p : DomainParams) : DomainParams :=
  if spec.isWindows ∧ virtioWinISOPath d spec ≠ "" then
    { p with virtioWinISO := virtioWinISOPath d spec }
  else p

/-- `applyGPUs`: the requested devices with the rest of their groups. -/
def applyGPUs (h : Host) (spec : VMSpec) (p : DomainParams) : DomainParams :=
  if spec.resolvedGPUs = [] then p
  else { p with gpuAddresses := h.expandIOMMUGroups spec.resolvedGPUs }

/-- `dropMissingInstallISO`. -/
def dropMissingInstallISO (h : Host) (p : DomainParams) : DomainParams :=
  if p.installISO ≠ "" ∧ ¬ h.fileExists p.installISO then { p with installISO := "" } else p

/-- An empty device field takes the historical default. -/
def orElse (v default : String) : String := if v = "" then default else v

/-- `gpuHostdevXML`. -/
def gpuHostdevXML (addr : String) : Except Err PCIAddress :=
  match pciAddressParts addr with
  | some parts => .ok parts
  | none => .error (.ext ("invalid GPU PCI address \"" ++ addr ++ "\""))

/-- The filled template, with the host devices taken apart. -/
def toXML (p : DomainParams) (hostdevs : List PCIAddress) : DomainXML where
  name := p.name
  uuid := p.uuid
  ramMB := p.ramMB
  cpus := p.cpus
  firmwareAttr := p.firmwareAttr
  firmwareFeature :=
    if p.secureBoot then some true else if p.firmwareAttr = "efi" then some false else none
  machine := p.machine
  hyperv := p.hyperv
  clockOffset := orElse p.clockOffset "utc"
  emulator := p.emulator
  diskPath := p.diskPath
  diskTarget := orElse p.diskTarget "vda"
  diskBus := orElse p.diskBus "virtio"
  cloudInit := ⟨.inl p.cloudInitISO, orElse p.cloudInitTarget "sda"⟩
  virtioWin :=
    if p.virtioWinISO = "" then none
    else some ⟨.inr p.virtioWinISO, orElse p.virtioWinTarget "sdc"⟩
  installISO :=
    if p.installISO = "" then none
    else some ⟨.inr p.installISO, orElse p.installISOTarget "sdd"⟩
  interfaces := p.interfaces
  tablet := p.tablet
  videoModel := p.videoModel
  vncPassword := p.vncPassword
  tpm := p.tpm
  hostdevs := hostdevs

/-- `GenerateDomainXML`: fails on a PCI address it cannot take apart. -/
def generateDomainXML (p : DomainParams) : Except Err DomainXML :=
  (p.gpuAddresses.mapM gpuHostdevXML).map p.toXML

theorem generateDomainXML_ok {p : DomainParams} {x : DomainXML} (h : generateDomainXML p = .ok x) :
    ∃ hostdevs, p.gpuAddresses.mapM gpuHostdevXML = .ok hostdevs ∧ x = p.toXML hostdevs := by
  unfold generateDomainXML at h
  cases hdevs : p.gpuAddresses.mapM gpuHostdevXML with
  | error e => simp [hdevs, Except.map] at h
  | ok hostdevs =>
      rw [hdevs] at h
      exact ⟨hostdevs, rfl, (Except.ok.inj h).symm⟩

/-- The parameters every caller builds from a spec: machine, drivers and devices as the
host has them. -/
def render (d : Daemon) (spec : VMSpec) (diskPath : HostPath) (natMAC : String) : DomainParams :=
  let p := fromSpec d.host spec diskPath (diskPath.dir.join "cidata.iso") d.cfg.network.name natMAC
  let p := { p with machine := resolveMachine spec.machine d.host.machineType }
  applyGPUs d.host spec (applyVirtioWin d spec p)

theorem generateDomainXML_name {p : DomainParams} {x : DomainXML}
    (h : generateDomainXML p = .ok x) : x.name = p.name ∧ x.uuid = p.uuid := by
  obtain ⟨hostdevs, -, rfl⟩ := generateDomainXML_ok h
  exact ⟨rfl, rfl⟩

theorem applyDiskBus_name (p : DomainParams) (bus : String) :
    (p.applyDiskBus bus).name = p.name ∧ (p.applyDiskBus bus).uuid = p.uuid := by
  unfold applyDiskBus
  split_ifs <;> exact ⟨rfl, rfl⟩

/-- What is rendered carries the spec's name, and no UUID until one is given. -/
theorem render_name (d : Daemon) (spec : VMSpec) (diskPath : HostPath) (natMAC : String) :
    (render d spec diskPath natMAC).name = spec.name ∧
      (render d spec diskPath natMAC).uuid = none := by
  have hGPU : ∀ p, (applyGPUs d.host spec p).name = p.name ∧ (applyGPUs d.host spec p).uuid = p.uuid := by
    intro p
    unfold applyGPUs
    split_ifs <;> exact ⟨rfl, rfl⟩
  have hwin : ∀ p, (applyVirtioWin d spec p).name = p.name ∧
      (applyVirtioWin d spec p).uuid = p.uuid := by
    intro p
    unfold applyVirtioWin
    split_ifs <;> exact ⟨rfl, rfl⟩
  unfold render
  simp only [hGPU, hwin, fromSpec, applyDiskBus_name]
  split_ifs <;> exact ⟨rfl, rfl⟩

end DomainParams

/-- `resolveInstallISO`: a relative path stands for a file in the images directory. -/
def resolveInstallISO (storage : StorageConfig) (iso : String) : String :=
  let iso := Go.trimSpace iso
  if iso = "" then ""
  else if iso.toList.head? = some '/' then HostPath.toText (HostPath.ofText iso)
  else HostPath.toText (HostPath.ofText (HostPath.toText storage.imagesDir ++ "/" ++ iso))

end VMSmith
