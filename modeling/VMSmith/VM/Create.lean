/-
Creating VMs: `Create` from a spec and `Clone` from a stopped VM.

Both choose an address from the DHCP range when none is given, fill a fresh
directory, define a domain and store the record last.  What a failed creation has
set up is taken down again.
-/
import VMSmith.VM.DiskMove
import VMSmith.VM.Update

namespace VMSmith

open Go (trimSpace)

namespace Manager

variable (d : Daemon)

/-! ### Addresses -/

/-- The first address of the range that nothing uses. -/
def firstFree (start stop : Nat) (address : Nat → String) (used : List String) : Option String :=
  (((List.range (stop + 1)).drop start).map address).find? (· ∉ used)

/-- The DHCP range: the octets of its ends. -/
def dhcpRange (cfg : NetworkConfig) : Option (List Nat × List Nat) := do
  let start ← (← Net.parseAddr cfg.dhcpStart.toList).to4
  let stop ← (← Net.parseAddr cfg.dhcpEnd.toList).to4
  pure (start, stop)

/-- The addresses of a response that may have failed. -/
def addressesOf {α : Type} (address : α → String) : Except Err (List α) → List String
  | .ok entries => entries.map address
  | .error _ => []

/-- `findAvailableIP`: an address of the range that is neither leased nor reserved. -/
def findAvailableIP : M String := do
  netCall .lookupNetworkByName >>= orWrap "looking up network"
  let leases ← netCall .getDHCPLeases
  let hosts ← netCall .networkHosts
  let used := addressesOf id leases ++ addressesOf DHCPHost.ip hosts
  let cfg := d.cfg.network
  match dhcpRange cfg with
  | some ([a, b, c, start], [_, _, _, stop]) =>
      match firstFree start stop (fun i => Net.dotted [a, b, c, i]) used with
      | some ip => return ip
      | none => .throw (.ext ("no free IP in DHCP range " ++ cfg.dhcpStart ++ "-" ++ cfg.dhcpEnd))
  | _ => .throw (.ext ("invalid DHCP range in config: " ++ cfg.dhcpStart ++ " - " ++ cfg.dhcpEnd))

/-- Delete these reservations; errors are ignored. -/
def deleteHosts : List DHCPHost → M Unit
  | [] => return ()
  | host :: hosts => do
      let _ ← netCall (.deleteDHCPHost host)
      deleteHosts hosts

/-- `RemoveDHCPHostByName`: errors are ignored. -/
def removeDHCPHostByName (name : String) : M Unit := do
  match ← netCall .networkHosts with
  | .ok hosts => deleteHosts (hosts.filter fun h => h.name = name ∧ h.mac ≠ "")
  | .error _ => return ()

/-- The event that the range is exhausted. -/
def dhcpExhausted (name reason : String) : Event where
  type := "dhcp.exhausted"
  source := "system"
  severity := "warn"
  message := "DHCP range exhausted; falling back to dynamic IP assignment for " ++ name
  attributes := [("vm_name", name), ("reason", reason)]

/-- Reserve an address for a new VM, if there is one and the reservation is taken. -/
def reserveAddress (name mac : String) : M (Option String) := do
  match ← (findAvailableIP d).attempt with
  | .ok ip => do
      removeDHCPHostByName name
      match ← netCall (.addDHCPHost { mac := mac, name := name, ip := ip }) with
      | .ok () => return some ip
      | .error _ => return none
  | .error e => do
      hostCall (.publish (dhcpExhausted name e.text))
      return none

/-- A spec with the address reserved for it. -/
def withAddress (spec : VMSpec) : Option String → VMSpec
  | some ip => { spec with
      natStaticIP := ip ++ "/24"
      natGateway := gatewayFromSubnet d.cfg.network.subnet }
  | none => spec

/-! ### Create -/

/-- The configured sizes stand in for those left out. -/
def applyDefaults (spec : VMSpec) : VMSpec :=
  { spec with
    cpus := if spec.cpus = 0 then d.cfg.defaults.cpus else spec.cpus
    ramMB := if spec.ramMB = 0 then d.cfg.defaults.ramMB else spec.ramMB
    diskGB := if spec.diskGB = 0 then d.cfg.defaults.diskGB else spec.diskGB }

/-- `probeUEFIRequirements`: what firmware, TPM and installer need is there. -/
def probeUEFIRequirements (h : Host) (spec : VMSpec) : Except Err Unit :=
  if spec.resolvedTPM ∧ ¬ h.swtpm then .error (.api "swtpm_missing"
    "emulated TPM requested but swtpm is not installed on the host; install it (e.g. apt install swtpm / dnf install swtpm) or disable the TPM with \"tpm\": false")
  else if spec.resolvedFirmwareAttr = "efi" ∧ ¬ h.ovmf then .error (.api "ovmf_missing"
    "UEFI firmware requested but no OVMF build was found on the host; install it (e.g. apt install ovmf / dnf install edk2-ovmf)")
  else if spec.resolvedFirmwareAttr = "efi" ∧ spec.resolvedSecureBoot ∧ ¬ h.ovmfSecboot then
    .error (.api "ovmf_missing"
      "Secure Boot requested but no secboot OVMF build was found on the host; install one (e.g. apt install ovmf / dnf install edk2-ovmf) or disable it with \"secure_boot\": false")
  else if spec.installISO ≠ "" ∧ ¬ h.fileExists spec.installISO then
    .error (.api "invalid_install_iso"
      ("install_iso path " ++ spec.installISO ++ " does not exist on the daemon host"))
  else .ok ()

/-- The hardware address of an attachment, made up if it has none. -/
def attachmentMAC (net : NetworkAttachment) : M String :=
  if net.macAddress = "" then hostCall .generateMAC else return net.macAddress

/-- Give every attachment a mode and a hardware address. -/
def assignMACs : List NetworkAttachment → M (List NetworkAttachment)
  | [] => return []
  | net :: nets => do
      let net := if net.mode = .other "" then { net with mode := .macvtap } else net
      let mac ← attachmentMAC net
      return { net with macAddress := mac } :: (← assignMACs nets)

/-- The administrator password of a Windows guest that was given none. -/
def generatedPassword (spec : VMSpec) : M String :=
  if spec.isWindows ∧ spec.adminPassword = "" then
    hostCall .generateAdminPassword >>= orWrap "generating admin password"
  else return ""

/-- The file a base image name stands for. -/
def baseImage (image : String) : String :=
  if image.toList.head? = some '/' then image
  else
    let candidate := HostPath.toText (HostPath.ofText (d.cfg.storage.imagesDir.toText ++ "/" ++ image))
    if ¬ d.host.fileExists candidate ∧ d.host.fileExists (candidate ++ ".qcow2") then
      candidate ++ ".qcow2"
    else candidate

/-- The system disk: blank for an installer, else over the base image. -/
def createDisk (spec : VMSpec) (diskPath : HostPath) : M Unit :=
  if spec.installISO ≠ "" then
    fileCall (.createBlankDisk diskPath spec.diskGB) >>= orWrap "creating blank install disk"
  else
    fileCall (.createOverlayDisk (baseImage d spec.image) diskPath spec.diskGB) >>=
      orWrap "creating overlay disk"

/-- What a new domain is defined from, and what of it the record keeps. -/
structure Provision where
  dom : Nat
  spec : VMSpec
  vncHash : String
  vncEnc : String

/-- The console secrets of a new VM. -/
def newVNC (plain : String) : M (String × String) :=
  if plain = "" then return ("", "") else deriveVNCPassword d plain

/-- Reap the domain that still carries this name. -/
def reapOrphan (name : String) : M Unit := undefineByName name

/-- Fill the directory and define the domain. -/
def provision (spec : VMSpec) (natMAC : String) (diskPath : HostPath) : M Provision := do
  createDisk d spec diskPath
  fileCall (.createProvisioningISO (diskPath.dir.join "cidata.iso") spec natMAC "") >>=
    orWrap "creating provisioning ISO"
  let plain := spec.vncPassword
  let spec := { spec with adminPassword := "", vncPassword := "" }
  let vnc ← newVNC d plain
  let params := { DomainParams.render d spec diskPath natMAC with vncPassword := plain }
  let xmlDoc ← orFail (DomainParams.generateDomainXML params)
  reapOrphan spec.name
  let dom ← virtCall (.domainDefineXML xmlDoc) >>= orWrap "defining domain"
  return { dom := dom, spec := spec, vncHash := vnc.1, vncEnc := vnc.2 }

/-- Start the domain and store the record. -/
def launch (id natMAC : String) (diskPath : HostPath) (p : Provision) : M VM := do
  virtCall (.create p.dom) >>= orWrap "starting domain"
  let createdAt ← now
  let updatedAt ← now
  let vm : VM := {
    id := id
    name := p.spec.name
    description := p.spec.description
    tags := p.spec.tags
    spec := p.spec
    state := .running
    natMAC := natMAC
    diskPath := diskPath
    createdAt := createdAt
    updatedAt := updatedAt
    vncPasswordHash := p.vncHash
    vncPasswordEnc := p.vncEnc }
  storeCall (.putVM vm) >>= orWrap "storing VM metadata"
  return vm

/-- The deferred cleanup of a creation that failed. -/
def cleanupCreate (natMAC natStaticIP : String) (vmDir : HostPath) : M Unit := do
  onlyIf (natStaticIP ≠ "") (removeReservation natMAC natStaticIP)
  let _ ← fileCall (.removeAll vmDir)

/-- From the directory on: what fails is cleaned up after. -/
def createIn (spec : VMSpec) (natMAC id : String) (vmDir : HostPath) : M VM := do
  let diskPath := vmDir.join "disk.qcow2"
  match ← (provision d spec natMAC diskPath).attempt with
  | .error e => do
      cleanupCreate natMAC spec.natStaticIP vmDir
      .throw e
  | .ok p =>
      match ← (launch id natMAC diskPath p).attempt with
      | .error e => do
          let _ ← forceUndefineDomain p.dom
          cleanupCreate natMAC spec.natStaticIP vmDir
          .throw e
      | .ok vm => return vm

/-- The checks of a creation and what is filled into its spec: the spec, the directory
for VM directories, and the one-time password. -/
def prepareCreate (spec : VMSpec) : M (VMSpec × HostPath × String) := do
  netCall .ensureNetwork >>= orWrap "ensuring NAT network"
  let spec := applyDefaults d spec
  let generated ← generatedPassword spec
  let spec := if generated = "" then spec else { spec with adminPassword := generated }
  let spec := { spec with installISO := resolveInstallISO d.cfg.storage spec.installISO }
  orFail (probeUEFIRequirements d.host spec)
  let loc ← resolveDiskLocation d spec.diskLocation
  let spec := { spec with diskLocation := storedDiskLocationName loc.name }
  failIf (spec.vncPassword ≠ "" ∧ trimSpace d.cfg.passwordKey = "")
    (.api "vnc_password_key_missing"
      "daemon.console.password_key must be configured before setting VNC passwords")
  orFail (validateNetworkAttachments spec.networks)
  let networks ← assignMACs spec.networks
  return ({ spec with networks := networks }, loc.path, generated)

/-- The address of a new VM: the one given, or one reserved now. -/
def chooseAddress (spec : VMSpec) (natMAC : String) : M VMSpec :=
  if spec.natStaticIP = "" then do
    return withAddress d spec (← reserveAddress d spec.name natMAC)
  else return spec

def vmID (nanos : Nat) : String := "vm-" ++ toString nanos

def create (spec : VMSpec) : M VM := do
  let (spec, location, generated) ← prepareCreate d spec
  let natMAC ← hostCall .generateMAC
  let spec ← chooseAddress d spec natMAC
  let id := vmID (← now)
  let vmDir := location.join id
  fileCall (.mkdirAll vmDir) >>= orWrap "creating VM dir"
  let vm ← createIn d spec natMAC id vmDir
  return { vm with generatedAdminPassword := generated }

/-! ### Clone -/

/-- Clones get hardware addresses of their own and no static ones. -/
def cloneNetworks : List NetworkAttachment → M (List NetworkAttachment)
  | [] => return []
  | net :: nets => do
      let mac ← hostCall .generateMAC
      return { net with macAddress := mac, staticIP := "", gateway := "" } :: (← cloneNetworks nets)

/-- `cloneVMSpec`. -/
def cloneVMSpec (source : VMSpec) (newName : String) : M VMSpec := do
  let networks ← cloneNetworks source.networks
  return { source with
    name := newName
    natStaticIP := ""
    natGateway := ""
    gpus := []
    vncPassword := ""
    networks := networks }

/-- The location of the source, or the default one when that is not there any more. -/
def cloneLocation (location : String) : M DiskLocation := do
  match ← (resolveDiskLocation d location).attempt with
  | .ok loc => return loc
  | .error _ => return ⟨defaultDiskLocation, d.cfg.storage.baseDir⟩

/-- The address of a clone. -/
def cloneAddress (spec : VMSpec) (natMAC : String) : M (Option String) :=
  if spec.natStaticIP = "" then reserveAddress d spec.name natMAC else return none

/-- Give back the address of a clone. -/
def releaseAddress (natMAC : String) : Option String → M Unit
  | some ip => removeDHCPHost natMAC ip
  | none => return ()

/-- Take down what a failed clone has set up. -/
def cleanupClone (natMAC : String) (reserved : Option String) (vmDir : HostPath) : M Unit := do
  releaseAddress natMAC reserved
  let _ ← fileCall (.removeAll vmDir)

/-- Write the provisioning image and define the domain. -/
def defineClone (spec : VMSpec) (natMAC : String) (diskPath : HostPath) : M Nat := do
  fileCall (.createProvisioningISO (diskPath.dir.join "cidata.iso") spec natMAC "") >>=
    orWrap "creating provisioning ISO"
  let xmlDoc ← orWrap "generating domain XML"
    (DomainParams.generateDomainXML (DomainParams.render d spec diskPath natMAC))
  virtCall (.domainDefineXML xmlDoc) >>= orWrap "defining domain"

/-- The record of a clone. -/
def cloneRecord (source : VM) (spec : VMSpec) (id natMAC : String) (diskPath : HostPath)
    (createdAt updatedAt : Nat) : VM where
  id := id
  name := spec.name
  description := source.description
  tags := source.tags
  spec := spec
  state := .stopped
  natMAC := natMAC
  diskPath := diskPath
  createdAt := createdAt
  updatedAt := updatedAt

/-- Define the domain and store the record: what fails is cleaned up after. -/
def finishClone (source : VM) (spec : VMSpec) (id natMAC : String) (reserved : Option String)
    (diskPath : HostPath) : M VM := do
  match ← (defineClone d spec natMAC diskPath).attempt with
  | .error e => do
      cleanupClone natMAC reserved diskPath.dir
      .throw e
  | .ok dom => do
      let createdAt ← now
      let updatedAt ← now
      let cloned := cloneRecord source spec id natMAC diskPath createdAt updatedAt
      match ← storeCall (.putVM cloned) with
      | .error e => do
          let _ ← virtCall (.undefine dom)
          cleanupClone natMAC reserved diskPath.dir
          .throw (.wrap "storing VM metadata" e)
      | .ok () => return cloned

/-- Copy the source's disk; a failure leaves no directory. -/
def copyDisk (source diskPath : HostPath) : M Unit := do
  match ← fileCall (.convertDisk source diskPath) with
  | .error e => do
      let _ ← fileCall (.removeAll diskPath.dir)
      .throw (.wrap "creating overlay disk" e)
  | .ok () => return ()

def clone (sourceID newName : String) : M VM := do
  let source ← getVM sourceID
  let dom ← lookupDomain source.name
  let state ← virtCall (.getState dom) >>= orWrap ("getting domain state " ++ source.name)
  failIf (state = .running) (.api "invalid_vm_state" "source VM must be stopped before cloning")
  netCall .ensureNetwork >>= orWrap "ensuring NAT network"
  let spec ← cloneVMSpec source.spec newName
  let loc ← cloneLocation d spec.diskLocation
  let spec := { spec with diskLocation := storedDiskLocationName loc.name }
  let id := vmID (← now)
  let vmDir := loc.path.join id
  fileCall (.mkdirAll vmDir) >>= orWrap "creating VM dir"
  let diskPath := vmDir.join "disk.qcow2"
  copyDisk source.diskPath diskPath
  let natMAC ← hostCall .generateMAC
  let reserved ← cloneAddress d spec natMAC
  finishClone d source (withAddress d spec reserved) id natMAC reserved diskPath

/-! ### The address monitor -/

/-- `applyStaticIPFallback`: reserve the address, power-cycle the domain and, once the
address answers, record it. -/
def applyStaticIPFallback (id name natMAC ip : String) : M Unit := do
  netCall (.addDHCPHost { mac := natMAC, name := name, ip := ip }) >>=
    orWrap "adding DHCP reservation"
  let dom ← virtCall (.lookupDomainByName name) >>= orWrap "looking up domain"
  let _ ← virtCall (.destroy dom)
  virtCall (.create dom) >>= orWrap "restarting domain"
  let answers ← hostCall (.waitPingable ip)
  failIf (answers = false) (.ext ("VM still not pingable at " ++ ip ++ " after 60s"))
  match ← storeCall (.getVM id) with
  | .error _ => return ()
  | .ok vm => do
      let updated := { vm with
        spec := { vm.spec with
          natStaticIP := ip ++ "/24"
          natGateway := gatewayFromSubnet d.cfg.network.subnet }
        updatedAt := ← now }
      let _ ← storeCall (.putVM updated)

/-- `startIPMonitor`, which runs in the background after a creation: a VM without a
static address that does not answer in time is given one. -/
def startIPMonitor (id name natMAC natStaticIP : String) : M Unit := do
  let answers ← hostCall (.waitPingable name)
  if natStaticIP ≠ "" ∨ answers = true then return ()
  else
    match ← (findAvailableIP d).attempt with
    | .error _ => return ()
    | .ok ip => do
        let _ ← (applyStaticIPFallback d id name natMAC ip).attempt

end Manager

end VMSmith
