/-
`Update`: apply a patch to a stored VM.

The patch is first resolved against the record into a plan, which says what every
field will be and which of them changed.  The rest is a sequence of steps, each of
which can fail: stop the guest, grow the disk, move the reservation and write the
provisioning image, seal the console password, redefine the domain, write the
record, start the guest again.
-/
import VMSmith.VM.GPU

namespace VMSmith

open Go (trimSpace toLower)

/-- The values a patch resolves to. -/
structure UpdatePlan where
  description : String
  tags : List String
  cpus : Nat
  ramMB : Nat
  diskGB : Nat
  natStaticIP : String
  natGateway : String
  ipChanged : Bool
  autoStart : Bool
  autoStartChanged : Bool
  locked : Bool
  lockedChanged : Bool
  clockOffset : String
  clockChanged : Bool
  diskBus : String
  diskBusChanged : Bool
  nicModel : String
  nicModelChanged : Bool
  isoEjected : Bool
  vncPlain : String
  vncChanged : Bool
  deriving DecidableEq, Repr

namespace UpdatePlan

/-- A word to be compared without case or surrounding blanks. -/
def canonical (s : String) : String := toLower (trimSpace s)

/-- An optional word against the stored one: the new value, and whether it is new. -/
def resolveWord (patch : Option String) (stored : String) : String × Bool :=
  match patch with
  | none => (stored, false)
  | some word =>
      if canonical word = canonical stored then (stored, false) else (canonical word, true)

/-- An optional flag against the stored one. -/
def resolveBool (patch : Option Bool) (stored : Bool) : Bool × Bool :=
  match patch with
  | none => (stored, false)
  | some v => if v = stored then (stored, false) else (v, true)

/-- The address change: the new address and gateway, and whether they are new. -/
def resolveIP (d : Daemon) (vm : VM) (patch : VMUpdateSpec) :
    Except Err (String × String × Bool) :=
  if patch.natStaticIP = "" then .ok (vm.spec.natStaticIP, vm.spec.natGateway, false)
  else
    match Net.parseCIDR patch.natStaticIP with
    | none => .error (.ext ("invalid nat_static_ip \"" ++ patch.natStaticIP ++
        "\": must be CIDR notation e.g. 192.168.100.50/24"))
    | some ip =>
        if ip ++ "/24" = vm.spec.natStaticIP then
          .ok (vm.spec.natStaticIP, vm.spec.natGateway, false)
        else
          let gateway :=
            if patch.natGateway = "" then gatewayFromSubnet d.cfg.network.subnet
            else patch.natGateway
          .ok (ip ++ "/24", gateway, true)

/-- The console password change: the new plain text, and whether there is one. -/
def resolveVNC (vm : VM) (patch : VMUpdateSpec) (wasRunning : Bool) :
    Except Err (String × Bool) :=
  match patch.vncPassword with
  | none => .ok ("", false)
  | some plain =>
      if plain = "" ∧ vm.vncPasswordHash = "" then .ok ("", false)
      else if wasRunning then .error (.api "vm_running"
        "stop the VM before changing the vnc password; the new password takes effect on the next start")
      else .ok (plain, true)

/-- The plan, once the address and the password are resolved. -/
def assemble (vm : VM) (patch : VMUpdateSpec) (ip : String × String × Bool) (vnc : String × Bool) :
    UpdatePlan :=
  let clock := resolveWord patch.clockOffset vm.spec.clockOffset
  let bus := resolveWord patch.diskBus vm.spec.diskBus
  let nic := resolveWord patch.nicModel vm.spec.nicModel
  let autoStart := resolveBool patch.autoStart vm.spec.autoStart
  let locked := resolveBool patch.locked vm.spec.locked
  { description := if patch.description = "" then vm.description else patch.description
    tags := patch.tags.getD vm.tags
    cpus := if 0 < patch.cpus then patch.cpus else vm.spec.cpus
    ramMB := if 0 < patch.ramMB then patch.ramMB else vm.spec.ramMB
    diskGB := if 0 < patch.diskGB then patch.diskGB else vm.spec.diskGB
    natStaticIP := ip.1
    natGateway := ip.2.1
    ipChanged := ip.2.2
    autoStart := autoStart.1
    autoStartChanged := autoStart.2
    locked := locked.1
    lockedChanged := locked.2
    clockOffset := clock.1
    clockChanged := clock.2
    diskBus := bus.1
    diskBusChanged := bus.2
    nicModel := nic.1
    nicModelChanged := nic.2
    isoEjected := patch.installISO.any (trimSpace · = "") && vm.spec.installISO ≠ ""
    vncPlain := vnc.1
    vncChanged := vnc.2 }

/-- Resolve a patch against a record.  A disk can only grow. -/
def resolve (d : Daemon) (vm : VM) (patch : VMUpdateSpec) (wasRunning : Bool) :
    Except Err UpdatePlan :=
  if 0 < patch.diskGB ∧ patch.diskGB < vm.spec.diskGB then
    .error (.ext ("disk can only grow: requested " ++ toString patch.diskGB ++
      " GB is less than current " ++ toString vm.spec.diskGB ++ " GB"))
  else do
    let ip ← resolveIP d vm patch
    let vnc ← resolveVNC vm patch wasRunning
    return assemble vm patch ip vnc

theorem resolve_ok {d : Daemon} {vm : VM} {patch : VMUpdateSpec} {wasRunning : Bool}
    {p : UpdatePlan} (h : resolve d vm patch wasRunning = .ok p) :
    ∃ ip vnc, ¬ (0 < patch.diskGB ∧ patch.diskGB < vm.spec.diskGB) ∧
      resolveIP d vm patch = .ok ip ∧ resolveVNC vm patch wasRunning = .ok vnc ∧
      p = assemble vm patch ip vnc := by
  unfold resolve at h
  split_ifs at h with hshrink
  cases hip : resolveIP d vm patch with
  | error e => simp [hip, bind, Except.bind] at h
  | ok ip =>
      cases hvnc : resolveVNC vm patch wasRunning with
      | error e => simp [hip, hvnc, bind, Except.bind] at h
      | ok vnc =>
          simp only [hip, hvnc, bind, Except.bind, pure, Except.pure, Except.ok.injEq] at h
          exact ⟨ip, vnc, hshrink, rfl, rfl, h.symm⟩

/-- Nothing changes but, at most, the two flags that are metadata. -/
def onlyFlags (p : UpdatePlan) (vm : VM) : Bool :=
  p.cpus = vm.spec.cpus && p.ramMB = vm.spec.ramMB && p.diskGB = vm.spec.diskGB &&
    p.description = vm.description && Go.join "," p.tags = Go.join "," vm.tags && !p.ipChanged &&
    !p.clockChanged && !p.diskBusChanged && !p.nicModelChanged && !p.vncChanged && !p.isoEjected

def nothingToDo (p : UpdatePlan) (vm : VM) : Bool :=
  p.onlyFlags vm && !p.autoStartChanged && !p.lockedChanged

def metadataOnly (p : UpdatePlan) (vm : VM) : Bool :=
  p.onlyFlags vm && (p.autoStartChanged || p.lockedChanged)

/-- The domain's definition depends on something that changes. -/
def redefines (p : UpdatePlan) (vm : VM) : Bool :=
  p.cpus ≠ vm.spec.cpus || p.ramMB ≠ vm.spec.ramMB || p.clockChanged || p.diskBusChanged ||
    p.nicModelChanged || p.vncChanged || p.isoEjected

/-- The record after a change of the flags alone. -/
def applyFlags (p : UpdatePlan) (vm : VM) : VM :=
  { vm with spec := { vm.spec with autoStart := p.autoStart, locked := p.locked } }

/-- The spec the new definition is rendered from. -/
def renderSpec (p : UpdatePlan) (vm : VM) : VMSpec :=
  { vm.spec with
    cpus := p.cpus
    ramMB := p.ramMB
    clockOffset := p.clockOffset
    diskBus := p.diskBus
    nicModel := p.nicModel
    installISO := if p.isoEjected then "" else vm.spec.installISO }

/-- The spec the provisioning image is written from. -/
def networkSpec (p : UpdatePlan) (vm : VM) : VMSpec :=
  { vm.spec with natStaticIP := p.natStaticIP, natGateway := p.natGateway }

/-- The record after the update. -/
def apply (p : UpdatePlan) (vm : VM) (vncHash vncEnc : String) : VM :=
  { vm with
    description := p.description
    tags := p.tags
    spec := { vm.spec with
      description := p.description
      tags := p.tags
      cpus := p.cpus
      ramMB := p.ramMB
      diskGB := p.diskGB
      natStaticIP := p.natStaticIP
      natGateway := p.natGateway
      autoStart := p.autoStart
      locked := p.locked
      clockOffset := p.clockOffset
      diskBus := p.diskBus
      nicModel := p.nicModel
      installISO := if p.isoEjected then "" else vm.spec.installISO
      vncPassword := if p.vncChanged then "" else vm.spec.vncPassword }
    ip := if p.ipChanged then (Net.parseCIDR p.natStaticIP).getD vm.ip else vm.ip
    vncPasswordHash := vncHash
    vncPasswordEnc := vncEnc }

end UpdatePlan

namespace Manager

variable (d : Daemon)

/-- `deriveVNCPassword`: the hash and the sealed form of a console password. -/
def deriveVNCPassword (plain : String) : M (String × String) := do
  failIf (trimSpace d.cfg.passwordKey = "") (.api "vnc_password_key_missing"
    "daemon.console.password_key must be configured before setting VNC passwords")
  let hash ← hostCall (.hashVNCPassword plain) >>= orFail
  let nonce ← hostCall .nonce >>= orFail
  return (hash, d.host.cipher.sealed d.cfg.passwordKey nonce plain)

/-- Stop the guest, by force if it does not go by itself. -/
def stopForUpdate (dom : Nat) (name : String) : M Unit := do
  shutdownOrDestroy dom "force-stopping domain"
  let off ← virtCall (.waitForShutoff dom)
  onlyIf (off = false) do
    let _ ← virtCall (.destroy dom)
    let off ← virtCall (.waitForShutoff dom)
    failIf (off = false)
      (.ext ("stopping domain " ++ name ++ " for update: still running after forced stop"))

/-- Grow the disk; when that fails the guest is started again. -/
def growDisk (dom : Nat) (vm : VM) (sizeGB : Nat) (wasRunning : Bool) : M Unit := do
  match ← fileCall (.resizeDisk vm.diskPath sizeGB) with
  | .ok () => return ()
  | .error e =>
      onlyIf (wasRunning = true) do let _ ← virtCall (.create dom)
      .throw (.wrap "resizing disk" e)

/-- `AddDHCPHost`, where the address can be read. -/
def addReservation (mac natStaticIP name context : String) : M Unit :=
  match Net.parseCIDR natStaticIP with
  | some ip => netCall (.addDHCPHost { mac := mac, name := name, ip := ip }) >>= orWrap context
  | none => return ()

/-- Move the reservation and write the provisioning image for the new address. -/
def changeAddress (vm : VM) (p : UpdatePlan) : M Unit := do
  onlyIf (vm.spec.natStaticIP ≠ "") (removeReservation vm.natMAC vm.spec.natStaticIP)
  addReservation vm.natMAC p.natStaticIP vm.name "updating DHCP reservation"
  let instanceID := vm.name ++ "-ip-" ++ toString (← now)
  fileCall (.createProvisioningISO (vm.diskPath.dir.join "cidata.iso") (p.networkSpec vm) vm.natMAC
    instanceID) >>= orWrap "regenerating provisioning ISO"

/-- The console secrets the record will hold. -/
def updatedVNC (vm : VM) (p : UpdatePlan) : M (String × String) :=
  if p.vncChanged then if p.vncPlain = "" then return ("", "") else deriveVNCPassword d p.vncPlain
  else return (vm.vncPasswordHash, vm.vncPasswordEnc)

/-- Render the new definition and define the domain anew. -/
def redefineForUpdate (dom : Nat) (vm : VM) (p : UpdatePlan) : M Unit := do
  let existingUUID ← virtCall (.getUUIDString dom)
  let params := { (DomainParams.render d (p.renderSpec vm) vm.diskPath vm.natMAC).dropMissingInstallISO
    d.host with uuid := existingUUID }
  let params ← orFail (if p.vncChanged then .ok { params with vncPassword := p.vncPlain }
    else withStoredVNC d vm.vncPasswordEnc params)
  let xmlDoc ← orWrap "generating domain XML" (DomainParams.generateDomainXML params)
  let _ ← virtCall (.domainDefineXML xmlDoc) >>= orWrap "redefining domain"

/-- Start the guest again, if it was running. -/
def restartAfterUpdate (vm : VM) : M Unit := do
  let dom ← virtCall (.lookupDomainByName vm.name) >>= orWrap "looking up domain after update"
  virtCall (.create dom) >>= orWrap "restarting domain"

/-- The steps of a full update. -/
def applyUpdate (dom : Nat) (vm : VM) (p : UpdatePlan) (wasRunning : Bool) : M VM := do
  onlyIf (wasRunning = true) (stopForUpdate dom vm.name)
  onlyIf (vm.spec.diskGB < p.diskGB) (growDisk dom vm p.diskGB wasRunning)
  onlyIf (p.ipChanged = true) (changeAddress vm p)
  let vnc ← updatedVNC d vm p
  onlyIf (p.redefines vm = true) (redefineForUpdate d dom vm p)
  let updated := { p.apply vm vnc.1 vnc.2 with updatedAt := ← now }
  storeCall (.putVM updated) >>= orWrap "storing updated VM"
  onlyIf (wasRunning = true) (restartAfterUpdate updated)
  return { updated with state := if wasRunning then .running else .stopped }

/-- An update of the two flags is a write of the record. -/
def updateFlags (vm : VM) (p : UpdatePlan) : M VM := do
  let updated := { p.applyFlags vm with updatedAt := ← now }
  storeCall (.putVM updated) >>= orWrap "storing updated VM"
  return updated

def update (id : String) (patch : VMUpdateSpec) : M VM := do
  let vm ← getVM id
  let dom ← lookupDomain vm.name
  let state ← virtCall (.getState dom)
  let wasRunning : Bool := state.toOption = some .running
  let p ← orFail (UpdatePlan.resolve d vm patch wasRunning)
  if p.nothingToDo vm then return vm
  else if p.metadataOnly vm then updateFlags vm p
  else applyUpdate d dom vm p wasRunning

end Manager

end VMSmith
