/-
The rest of the host: the NAT network and its packet filter, files, and the clock.

Files are the paths that exist, each with its virtual size where it is a disk
image.  The DHCP server refuses a reservation that shares an address, a hardware
address or a name with one it has.
-/
import VMSmith.System.Virt
import VMSmith.Events.EventStore

namespace VMSmith

/-! ### Network -/

/-- A DHCP host reservation. -/
structure DHCPHost where
  mac : String
  name : String := ""
  ip : String
  deriving DecidableEq, Repr

/-- A rule the port forwarder puts into the packet filter. -/
inductive IptRule where
  | dnat (protocol : String) (hostPort : Int) (guestIP : String) (guestPort : Int)
  | forward (protocol guestIP : String) (guestPort : Int)
  deriving DecidableEq, Repr

inductive IptAction where
  /-- `-A` -/
  | append
  /-- `-D` -/
  | delete
  deriving DecidableEq, Repr

inductive NetCmd where
  | ensureNetwork
  | lookupNetworkByName
  | getDHCPLeases
  | networkHosts
  | addDHCPHost (host : DHCPHost)
  /-- Delete the reservation with these attributes; an empty name matches any. -/
  | deleteDHCPHost (host : DHCPHost)
  | iptables (action : IptAction) (rule : IptRule)
  deriving DecidableEq, Repr

@[reducible] def NetCmd.Resp : NetCmd → Type
  | .getDHCPLeases => Except Err (List String)
  | .networkHosts => Except Err (List DHCPHost)
  | _ => Except Err Unit

structure NetState where
  hosts : List DHCPHost := []
  /-- The addresses leased at the moment. -/
  leases : List String := []
  rules : List IptRule := []
  deriving DecidableEq, Repr

namespace NetState

/-- Whether a reservation stands in the way of another. -/
def clashes (a b : DHCPHost) : Bool := a.mac == b.mac || a.ip == b.ip || a.name == b.name

/-- Whether a deletion request names this reservation. -/
def names (pattern host : DHCPHost) : Bool :=
  pattern.mac == host.mac && pattern.ip == host.ip &&
    (pattern.name == "" || pattern.name == host.name)

def exec (s : NetState) (x : Choice) : (c : NetCmd) → Option (c.Resp × NetState)
  | .ensureNetwork => fallible x s (.ok ((), s))
  | .lookupNetworkByName => fallible x s (.ok ((), s))
  | .getDHCPLeases => fallible x s (.ok (s.leases, s))
  | .networkHosts => fallible x s (.ok (s.hosts, s))
  | .addDHCPHost host => fallible x s <|
      if s.hosts.any (clashes host) then .error (.ext "there is an existing dhcp host entry")
      else .ok ((), { s with hosts := s.hosts ++ [host] })
  | .deleteDHCPHost host => fallible x s <|
      if s.hosts.any (names host) then
        .ok ((), { s with hosts := s.hosts.eraseP (names host) })
      else .error (.ext "couldn't locate a matching dhcp host entry")
  | .iptables .append rule => fallible x s (.ok ((), { s with rules := s.rules ++ [rule] }))
  | .iptables .delete rule => fallible x s <|
      if rule ∈ s.rules then .ok ((), { s with rules := s.rules.erase rule })
      else .error (.ext "iptables: Bad rule (does a matching rule exist in that chain?).")

end NetState

/-! ### Files -/

inductive FileCmd where
  /-- The path is an existing directory. -/
  | statDir (path : HostPath)
  /-- Something exists at the path. -/
  | lstat (path : HostPath)
  /-- A new directory in this one. -/
  | mkdirTemp (dir : HostPath)
  | evalSymlinks (path : HostPath)
  | mkdirAll (path : HostPath)
  | removeAll (path : HostPath)
  | createBlankDisk (path : HostPath) (sizeGB : Nat)
  | createOverlayDisk (base : String) (path : HostPath) (sizeGB : Nat)
  | convertDisk (source path : HostPath)
  | resizeDisk (path : HostPath) (sizeGB : Nat)
  | createProvisioningISO (path : HostPath) (spec : VMSpec) (natMAC instanceID : String)
  /-- Describe and sum up a copied disk, and pack all of it into an appliance. -/
  | bundleOVA (vmdk output : HostPath)
  | sameFilesystem (a b : HostPath)
  | dirAllocatedBytes (dir : HostPath)
  | freeBytes (path : HostPath)
  /-- Rename, or copy across file systems: whether it was a rename. -/
  | relocate (source destination : HostPath)
  | commitRelocation (source : HostPath) (renamed : Bool)
  | rollbackRelocation (source destination : HostPath) (renamed : Bool)
  deriving DecidableEq, Repr

@[reducible] def FileCmd.Resp : FileCmd → Type
  | .statDir _ => Bool
  | .lstat _ => Bool
  | .mkdirTemp _ => Except Err HostPath
  | .evalSymlinks _ => Except Err HostPath
  | .sameFilesystem _ _ => Bool
  | .dirAllocatedBytes _ => Except Err Nat
  | .freeBytes _ => Except Err Nat
  | .relocate _ _ => Except Err Bool
  | _ => Except Err Unit

structure FileState where
  /-- The paths that exist, with the virtual size of those that are disk images. -/
  files : List (HostPath × Nat) := []
  deriving DecidableEq, Repr

namespace FileState

def has (s : FileState) (p : HostPath) : Bool := s.files.any (·.1 == p)

def write (s : FileState) (p : HostPath) (size : Nat) : FileState :=
  { s with files := s.files.filter (·.1 ≠ p) ++ [(p, size)] }

/-- A directory and everything above it. -/
def mkdirAll (s : FileState) (p : HostPath) : FileState :=
  { s with files := s.files ++ (p.inits.filter (fun q => ¬ s.has q)).map (·, 0) }

def removeAll (s : FileState) (p : HostPath) : FileState :=
  { s with files := s.files.filter fun f => ¬ f.1.within p }

/-- The same place under another directory. -/
def reroot (source destination p : HostPath) : HostPath := destination ++ p.drop source.length

/-- A copy of a directory tree under another directory. -/
def copyTree (s : FileState) (source destination : HostPath) : FileState :=
  { s with
    files := s.files ++ (s.files.filter (·.1.within source)).map fun f =>
      (reroot source destination f.1, f.2) }

/-- Rename a directory tree. -/
def rename (s : FileState) (source destination : HostPath) : FileState :=
  { s with
    files := s.files.map fun f =>
      if f.1.within source then (reroot source destination f.1, f.2) else f }

def exec (s : FileState) (x : Choice) : (c : FileCmd) → Option (c.Resp × FileState)
  | .statDir p => some (s.has p, s)
  | .lstat p => some (s.has p, s)
  | .mkdirTemp dir => fallible x s <|
      if s.has (dir.join x.text) then .error (.ext "file exists")
      else .ok (dir.join x.text, s.mkdirAll (dir.join x.text))
  | .evalSymlinks _ => fallible x s (.ok (x.path, s))
  | .mkdirAll p => fallible x s (.ok ((), s.mkdirAll p))
  | .removeAll p => fallible x s (.ok ((), s.removeAll p))
  | .createBlankDisk p size => fallible x s (.ok ((), s.write p size))
  | .createOverlayDisk _ p size => fallible x s (.ok ((), s.write p size))
  | .convertDisk source p => fallible x s <|
      match s.files.lookup source with
      | some size => .ok ((), s.write p size)
      | none => .error (.ext "qemu-img: Could not open the source")
  | .resizeDisk p size => fallible x s <|
      if s.has p then .ok ((), s.write p size) else .error (.ext "qemu-img: Could not open the image")
  | .createProvisioningISO p _ _ _ => fallible x s (.ok ((), s.write p 0))
  | .bundleOVA vmdk output => fallible x s <|
      if s.has vmdk then .ok ((), s.write output 0) else .error (.ext "no such file or directory")
  | .sameFilesystem _ _ => some (x.flag, s)
  | .dirAllocatedBytes _ => fallible x s (.ok (x.nat, s))
  | .freeBytes _ => fallible x s (.ok (x.nat, s))
  | .relocate source destination => fallible x s <|
      if s.has destination then .error (.ext "destination already exists")
      else if x.flag then .ok (true, s.rename source destination)
      else .ok (false, s.copyTree source destination)
  | .commitRelocation source renamed =>
      fallible x s (.ok ((), if renamed then s else s.removeAll source))
  | .rollbackRelocation source destination renamed =>
      fallible x s (.ok ((), if renamed then s.rename destination source else s.removeAll destination))

end FileState

/-! ### Clock, randomness and the event bus -/

inductive HostCmd where
  /-- Nanoseconds; the clock never goes back. -/
  | now
  | generateMAC
  | generateAdminPassword
  | hashVNCPassword (plain : String)
  /-- The random part of a sealed password. -/
  | nonce
  /-- The quota check of a create request. -/
  | enforceCreateQuotas (spec : VMSpec)
  | acquireCreateSlot
  /-- Poll until the VM or the address answers, or for long enough. -/
  | waitPingable (target : String)
  | publish (evt : Event)
  deriving DecidableEq, Repr

@[reducible] def HostCmd.Resp : HostCmd → Type
  | .now => Nat
  | .generateMAC => String
  | .generateAdminPassword => Except Err String
  | .hashVNCPassword _ => Except Err String
  | .nonce => Except Err Nat
  | .enforceCreateQuotas _ => Except Err Unit
  | .acquireCreateSlot => Bool
  | .waitPingable _ => Bool
  | .publish _ => Unit

structure HostState where
  clock : Nat := 0
  /-- Published and not yet taken by the state persister. -/
  bus : List Event := []
  deriving DecidableEq, Repr

namespace HostState

def exec (s : HostState) (x : Choice) : (c : HostCmd) → Option (c.Resp × HostState)
  | .now => some (s.clock + x.nat, { s with clock := s.clock + x.nat })
  | .generateMAC => some (x.text, s)
  | .generateAdminPassword => fallible x s (.ok (x.text, s))
  | .hashVNCPassword _ => fallible x s (.ok (x.text, s))
  | .nonce => fallible x s (.ok (x.nat, s))
  | .enforceCreateQuotas _ => fallible x s (.ok ((), s))
  | .acquireCreateSlot => some (x.flag, s)
  | .waitPingable _ => some (x.flag, s)
  | .publish evt => some ((), { s with bus := s.bus ++ [evt] })

end HostState

end VMSmith
