/-
Virtual machines as the daemon stores them.

`VMSpec` is what was asked for and `VM` the record kept; `VMUpdateSpec` is a patch,
where an absent field, or a zero one, means no change.  The `resolved…` functions
give the effective value of a field that may be left empty.
-/
import VMSmith.Lib.GoStrings
import VMSmith.Lib.Path

namespace VMSmith

open Go (trimSpace toLower equalFold)

/-- An error as it reaches the caller: a typed one, a failure of the world, or either
with context around it. -/
inductive Err where
  | api (code message : String)
  | ext (text : String)
  | wrap (context : String) (cause : Err)
  deriving DecidableEq, Repr

/-- The error text an error carries. -/
def Err.text : Err → String
  | .api _ message => message
  | .ext text => text
  | .wrap context cause => context ++ ": " ++ cause.text

inductive VMState where
  | creating
  | running
  | stopped
  | paused
  | deleted
  | unknown
  deriving DecidableEq, Repr

inductive NetworkMode where
  | nat
  | macvtap
  | bridge
  /-- Left empty, or not one of the known words. -/
  | other (word : String)
  deriving DecidableEq, Repr

/-- An extra interface beside the NAT one. -/
structure NetworkAttachment where
  name : String := ""
  mode : NetworkMode := .other ""
  hostInterface : String := ""
  bridge : String := ""
  staticIP : String := ""
  gateway : String := ""
  macAddress : String := ""
  deriving DecidableEq, Repr

structure VMSpec where
  name : String
  image : String := ""
  cpus : Nat := 0
  ramMB : Nat := 0
  diskGB : Nat := 0
  description : String := ""
  tags : List String := []
  osType : String := ""
  osVariant : String := ""
  clockOffset : String := ""
  adminPassword : String := ""
  networks : List NetworkAttachment := []
  /-- CIDR notation, or empty. -/
  natStaticIP : String := ""
  natGateway : String := ""
  autoStart : Bool := false
  locked : Bool := false
  diskBus : String := ""
  nicModel : String := ""
  diskLocation : String := ""
  machine : String := ""
  firmware : String := ""
  virtioWinISO : String := ""
  secureBoot : Option Bool := none
  tpm : Option Bool := none
  installISO : String := ""
  gpus : List String := []
  vncPassword : String := ""
  deriving DecidableEq, Repr

/-- A patch.  An absent value, a zero or an empty one is no change, except behind an
`Option`, where it is a value like any other. -/
structure VMUpdateSpec where
  cpus : Nat := 0
  ramMB : Nat := 0
  diskGB : Nat := 0
  description : String := ""
  tags : Option (List String) := none
  natStaticIP : String := ""
  natGateway : String := ""
  autoStart : Option Bool := none
  locked : Option Bool := none
  clockOffset : Option String := none
  diskBus : Option String := none
  nicModel : Option String := none
  vncPassword : Option String := none
  installISO : Option String := none
  deriving DecidableEq, Repr

structure VM where
  id : String
  name : String
  description : String := ""
  tags : List String := []
  spec : VMSpec
  state : VMState
  ip : String := ""
  natMAC : String := ""
  diskPath : HostPath
  createdAt : Nat := 0
  updatedAt : Nat := 0
  generatedAdminPassword : String := ""
  vncPasswordHash : String := ""
  vncPasswordEnc : String := ""
  deriving DecidableEq, Repr

/-! ### PCI addresses -/

def isHexDigit (c : Char) : Bool :=
  ('0' ≤ c && c ≤ '9') || ('a' ≤ c && c ≤ 'f') || ('A' ≤ c && c ≤ 'F')

/-- `bus:slot.function` of a PCI address. -/
def isShortPCI : List Char → Bool
  | [b₁, b₂, ':', s₁, s₂, '.', f] =>
      isHexDigit b₁ && isHexDigit b₂ && (s₁ == '0' || s₁ == '1') && isHexDigit s₂ &&
        '0' ≤ f && f ≤ '7'
  | _ => false

/-- The long form adds a domain of four digits. -/
def isLongPCI : List Char → Bool
  | d₁ :: d₂ :: d₃ :: d₄ :: ':' :: rest => [d₁, d₂, d₃, d₄].all isHexDigit && isShortPCI rest
  | _ => false

/-- `NormalizePCIAddress`: the lowercase long form, or empty. -/
def normalizePCIAddress (s : String) : String :=
  let s := toLower (trimSpace s)
  if isLongPCI s.toList then s
  else if isShortPCI s.toList then "0000:" ++ s
  else ""

/-- The four parts of a PCI address, as libvirt's address element takes them. -/
structure PCIAddress where
  domain : String
  bus : String
  slot : String
  function : String
  deriving DecidableEq, Repr

/-- `PCIAddressParts`. -/
def pciAddressParts (addr : String) : Option PCIAddress :=
  match (normalizePCIAddress addr).toList with
  | [d₁, d₂, d₃, d₄, ':', b₁, b₂, ':', s₁, s₂, '.', f] =>
      some {
        domain := "0x" ++ String.ofList [d₁, d₂, d₃, d₄]
        bus := "0x" ++ String.ofList [b₁, b₂]
        slot := "0x" ++ String.ofList [s₁, s₂]
        function := "0x" ++ String.ofList [f] }
  | _ => none

/-! ### Resolved fields -/

namespace VMSpec

def isWindows (s : VMSpec) : Bool := toLower (trimSpace s.osType) == "windows"

/-- An explicit value, trimmed and lowercased, or else the default of the OS family. -/
def resolved (s : VMSpec) (explicit windows linux : String) : String :=
  let v := toLower (trimSpace explicit)
  if v ≠ "" then v else if s.isWindows then windows else linux

def resolvedDiskBus (s : VMSpec) : String := s.resolved s.diskBus "sata" "virtio"

def resolvedNICModel (s : VMSpec) : String := s.resolved s.nicModel "e1000e" "virtio"

def resolvedClockOffset (s : VMSpec) : String := s.resolved s.clockOffset "localtime" "utc"

/-- On for Windows 11, whose installer needs it, unless said otherwise. -/
def resolvedFlag (s : VMSpec) (explicit : Option Bool) : Bool :=
  explicit.getD (equalFold (trimSpace s.osVariant) "windows-11")

def resolvedSecureBoot (s : VMSpec) : Bool := s.resolvedFlag s.secureBoot

def resolvedTPM (s : VMSpec) : Bool := s.resolvedFlag s.tpm

/-- Secure Boot forces EFI. -/
def resolvedFirmwareAttr (s : VMSpec) : String :=
  let v := toLower (trimSpace s.firmware)
  if v = "uefi" ∨ v = "ovmf" then "efi" else if s.resolvedSecureBoot then "efi" else ""

/-- The requested GPUs in canonical form: invalid ones dropped, each once. -/
def resolvedGPUs (s : VMSpec) : List String :=
  s.gpus.foldl (fun out g =>
    let n := normalizePCIAddress g
    if n = "" ∨ n ∈ out then out else out ++ [n]) []

end VMSpec

/-! ### Network attachments -/

/-- The word a network mode is written as. -/
def NetworkMode.text : NetworkMode → String
  | nat => "nat"
  | macvtap => "macvtap"
  | bridge => "bridge"
  | other word => word

/-- What is wrong with the attachment at this place, beside its sharing an interface. -/
def NetworkAttachment.errors (i : Nat) (net : NetworkAttachment) : List String :=
  let place := "network[" ++ toString i ++ "]"
  (match net.mode with
    | .macvtap | .bridge | .nat | .other "" => []
    | .other word => [place ++ ": unknown mode \"" ++ word ++ "\" (use macvtap, bridge, or nat)"]) ++
  (if (net.mode = .macvtap ∨ net.mode = .other "") ∧ net.hostInterface = "" then
    [place ++ " (" ++ net.name ++ "): host_interface is required for macvtap mode"] else []) ++
  (if net.mode = .bridge ∧ net.hostInterface = "" ∧ net.bridge = "" then
    [place ++ " (" ++ net.name ++ "): bridge or host_interface is required for bridge mode"] else [])

/-- What is wrong with a list of attachments; `seen` are the interfaces taken so far. -/
def attachmentErrors : Nat → List String → List NetworkAttachment → List String
  | _, _, [] => []
  | i, seen, net :: nets =>
      let key := net.hostInterface
      let duplicate :=
        if key ≠ "" ∧ key ∈ seen then
          ["network[" ++ toString i ++ "]: duplicate host_interface \"" ++ key ++ "\""]
        else []
      let seen := if key = "" then seen else key :: seen
      net.errors i ++ duplicate ++ attachmentErrors (i + 1) seen nets

/-- `ValidateNetworkAttachments`. -/
def validateNetworkAttachments (nets : List NetworkAttachment) : Except Err Unit :=
  match attachmentErrors 0 [] nets with
  | [] => .ok ()
  | errs => .error (.ext ("invalid network config:\n  " ++ Go.join "\n  " errs))

end VMSmith
