/-
The port forwarder: a stored rule stands for a DNAT rule and a FORWARD rule in the
packet filter.

`add` puts the pair into the filter and then the record into the store, `remove` goes
the same way back, and `restoreAll` puts in the pairs of all records when the daemon
starts.  Each of the filter's rules is a call of its own that can fail.
-/
import VMSmith.VM.Lifecycle

namespace VMSmith

open Go (trimSpace)

/-- The filter's rules for a stored rule. -/
def PortForward.rules (p : PortForward) : List IptRule :=
  [.dnat p.protocol p.hostPort p.guestIP p.guestPort, .forward p.protocol p.guestIP p.guestPort]

/-- `ValidatePortForward`. -/
def validatePortForward (hostPort guestPort : Int) (proto : String) : Except Err Unit :=
  if hostPort < 1 ∨ 65535 < hostPort then
    .error (.api "invalid_port_forward" "host_port must be between 1 and 65535")
  else if guestPort < 1 ∨ 65535 < guestPort then
    .error (.api "invalid_port_forward" "guest_port must be between 1 and 65535")
  else if proto ≠ "tcp" ∧ proto ≠ "udp" then
    .error (.api "invalid_port_forward" "protocol must be tcp or udp")
  else .ok ()

def listPortForwards (context : String) : M (List PortForward) :=
  storeCall .listPortForwards >>= orWrap context

namespace PortForwarder

/-- What `Add` is asked for. -/
structure AddRequest where
  vmID : String
  hostPort : Int
  guestPort : Int
  guestIP : String
  proto : String := ""
  description : String := ""
  tags : List String := []
  deriving DecidableEq, Repr

namespace AddRequest

variable (req : AddRequest)

/-- TCP unless said otherwise. -/
def protocol : String := if req.proto = "" then "tcp" else req.proto

/-- The record of the request. -/
def toRule (id : String) : PortForward where
  id := id
  vmID := req.vmID
  hostPort := req.hostPort
  guestPort := req.guestPort
  guestIP := req.guestIP
  protocol := req.protocol
  description := req.description
  tags := req.tags

end AddRequest

/-- `UpdateOptions`. -/
structure UpdateOptions where
  description : Option String := none
  tags : Option (List String) := none
  deriving DecidableEq, Repr

/-- A record with its editable fields changed. -/
def UpdateOptions.apply (opts : UpdateOptions) (fwd : PortForward) : PortForward :=
  { fwd with
    description := opts.description.elim fwd.description trimSpace
    tags := opts.tags.getD fwd.tags }

/-- `applyRule`: the DNAT rule, then the FORWARD rule. -/
def applyRule (action : IptAction) (hostPort guestPort : Int) (guestIP proto : String) : M Unit := do
  netCall (.iptables action (.dnat proto hostPort guestIP guestPort)) >>= orWrap "iptables DNAT"
  netCall (.iptables action (.forward proto guestIP guestPort)) >>= orWrap "iptables FORWARD"

/-- The pair of a record. -/
def applyRuleOf (action : IptAction) (fwd : PortForward) : M Unit :=
  applyRule action fwd.hostPort fwd.guestPort fwd.guestIP fwd.protocol

/-- The refusal of a host port that is taken. -/
def portConflict (req : AddRequest) : Err :=
  .api "port_forward_conflict"
    ("host port " ++ toString req.hostPort ++ "/" ++ req.protocol ++ " is already forwarded")

def ruleID (nanos : Nat) : String := "pf-" ++ toString nanos

/-- `Add`. -/
def add (req : AddRequest) : M PortForward := do
  orFail (validatePortForward req.hostPort req.guestPort req.protocol)
  let existing ← listPortForwards "listing existing port forwards"
  failIf (∃ fwd ∈ existing, fwd.hostPort = req.hostPort ∧ fwd.protocol = req.protocol)
    (portConflict req)
  applyRule .append req.hostPort req.guestPort req.guestIP req.protocol
  let rule := req.toRule (ruleID (← now))
  match ← storeCall (.putPortForward rule) with
  | .error e => do
      let _ ← (applyRule .delete req.hostPort req.guestPort req.guestIP req.protocol).attempt
      .throw (.wrap "persisting port forward" e)
  | .ok () => return rule

/-- `Update`: the filter's rules stay. -/
def update (id : String) (opts : UpdateOptions) : M PortForward := do
  let forwards ← listPortForwards "listing port forwards"
  match forwards.find? (·.id = id) with
  | none => .throw (.api "resource_not_found" ("port forward " ++ id ++ " not found"))
  | some fwd => do
      let fwd := opts.apply fwd
      storeCall (.putPortForward fwd) >>= orWrap "persisting port forward"
      return fwd

/-- `Remove`. -/
def remove (id : String) : M Unit := do
  let forwards ← storeCall .listPortForwards >>= orFail
  match forwards.find? (·.id = id) with
  | none => .throw (.ext ("port forward " ++ id ++ " not found"))
  | some fwd => do
      applyRuleOf .delete fwd
      storeCall (.deletePortForward id) >>= orFail

/-- Put in the pairs of these records; what fails is only logged. -/
def restore : List PortForward → M Unit
  | [] => return ()
  | fwd :: fwds => do
      let _ ← (applyRuleOf .append fwd).attempt
      restore fwds

/-- `RestoreAll`. -/
def restoreAll : M Unit := do
  let forwards ← storeCall .listPortForwards >>= orFail
  restore forwards

end PortForwarder

end VMSmith
