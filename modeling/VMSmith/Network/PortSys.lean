/-
Calls of the port forwarder, interleaved.

Nothing holds the store or the packet filter from one command of a call to its next.
Between any two of them anything outside may change but the stored rules.
-/
import VMSmith.Lib.Pool
import VMSmith.Network.PortForward

namespace VMSmith

open PortForwarder (AddRequest UpdateOptions)

/-- The rule forwards what the request asks for. -/
def PortForwarder.AddRequest.takes (req : AddRequest) (fwd : PortForward) : Bool :=
  fwd.hostPort = req.hostPort && fwd.protocol = req.protocol

inductive PortOp where
  | add (req : AddRequest)
  | update (id : String) (opts : UpdateOptions)
  | remove (id : String)
  | restoreAll
  deriving DecidableEq, Repr

namespace PortOp

def body : PortOp → M Unit
  | .add req => do
      let _ ← PortForwarder.add req
      return ()
  | .update id opts => do
      let _ ← PortForwarder.update id opts
      return ()
  | .remove id => PortForwarder.remove id
  | .restoreAll => PortForwarder.restoreAll

/-- An `Add` or a `Remove`. -/
def isAddOrRemove : PortOp → Bool
  | add _ | remove _ => true
  | _ => false

end PortOp

/-! ### What a call has been answered -/

structure PortView where
  /-- The rules that were listed. -/
  listed : Option (List PortForward) := none
  /-- The store has answered the write of the rule. -/
  answered : Bool := false
  deriving DecidableEq, Repr

/-- What one answer adds. -/
def PortView.add (v : PortView) : (c : Cmd) → c.Resp → PortView
  | .store .listPortForwards, .ok rules => { v with listed := some rules }
  | .store (.putPortForward _), _ => { v with answered := true }
  | _, _ => v

/-- Calls under way over one world. -/
abbrev PortSys := Pool PortOp Cmd Cmd.Resp Err Unit World

abbrev PortLabel := PoolLabel PortOp Choice World

abbrev PortCall := Thread PortOp Cmd Cmd.Resp Err Unit

def PortCall.view (t : PortCall) : PortView := Prog.Log.account PortView.add {} t.log

namespace PortSys

/-- What may happen by itself: anything but a change of a stored rule. -/
def drift (e w : World) : Option World :=
  some { e with store := { e.store with forwards := w.store.forwards } }

def step : PortSys → PortLabel → Option PortSys := Pool.step PortOp.body World.exec drift

end PortSys

end VMSmith
