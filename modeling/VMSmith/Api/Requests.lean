/-
Create and clone requests, interleaved.

The requests share the store and libvirt.  While they run, guests may start, stop and
crash, transient domains may vanish, and everything outside may change; no domain
appears and no record changes but by a request.
-/
import VMSmith.Lib.Pool
import VMSmith.VM.RecordOps

namespace VMSmith

open Go (trimSpace equalFold)

/-- The comparison of the uniqueness check; the new name has been trimmed there. -/
def sameName (a b : String) : Bool := equalFold (trimSpace a) (trimSpace b)

inductive RequestOp where
  | create (spec : VMSpec)
  | clone (sourceID name : String)
  deriving DecidableEq, Repr

namespace RequestOp

/-- The name the new VM is to have. -/
def name : RequestOp → String
  | create spec => trimSpace spec.name
  | clone _ name => trimSpace name

def body (d : Daemon) : RequestOp → M VM
  | create spec => Api.createVM d spec
  | clone sourceID name => Api.cloneVM d sourceID name

end RequestOp

/-! ### What a request has been answered -/

/-- The listings a request has had. -/
def listings : CmdLog → List (List VM)
  | [] => []
  | ⟨.store .listVMs, .ok vms⟩ :: log => vms :: listings log
  | _ :: log => listings log

/-- The records a request has stored. -/
def writes : CmdLog → List VM
  | [] => []
  | ⟨.store (.putVM vm), .ok ()⟩ :: log => vm :: writes log
  | _ :: log => writes log

/-- The domains a request has defined. -/
def defined : CmdLog → List Nat
  | [] => []
  | ⟨.virt (.domainDefineXML _), .ok dom⟩ :: log => dom :: defined log
  | _ :: log => defined log

/-- The domains a request has found under this name. -/
def found (name : String) : CmdLog → List Nat
  | [] => []
  | ⟨.virt (.lookupDomainByName n), .ok dom⟩ :: log =>
      if n = name then dom :: found name log else found name log
  | _ :: log => found name log

/-- The domain a command destroys or undefines. -/
def Cmd.victim? : Cmd → Option Nat
  | .virt (.destroy dom) => some dom
  | .virt (.undefineFlags dom) => some dom
  | .virt (.undefine dom) => some dom
  | _ => none

/-- Requests under way over one world. -/
abbrev RequestSys := Pool RequestOp Cmd Cmd.Resp Err VM World

abbrev RequestLabel := PoolLabel RequestOp Choice World

abbrev Request := Thread RequestOp Cmd Cmd.Resp Err VM

namespace Request

/-- The domain the request is about to destroy or undefine. -/
def victim? (t : Request) : Option Nat :=
  match t.prog with
  | .call c _ => c.victim?
  | _ => none

/-- Under way, or returned with its VM. -/
def live (t : Request) : Bool :=
  !t.lost && match t.prog with
    | .throw _ => false
    | _ => true

end Request

namespace RequestSys

/-- What may happen by itself: anything but a new domain or a change of a record. -/
def drift (e w : World) : Option World :=
  if (∀ p ∈ e.virt.idents, p ∈ w.virt.idents) ∧ e.virt.nextUUID = w.virt.nextUUID then
    some { e with store := w.store }
  else none

def step (d : Daemon) : RequestSys → RequestLabel → Option RequestSys :=
  Pool.step (RequestOp.body d) World.exec drift

end RequestSys

end VMSmith
