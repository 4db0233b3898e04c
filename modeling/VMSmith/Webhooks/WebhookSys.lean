/-
Webhooks at work: requests, workers and the bus, interleaved.

The manager starts with a worker for every stored webhook that is active.  From then on
requests change, delete and test webhooks, one command at a time; the workers take their
steps; and the bus goes on with everybody else who publishes and subscribes.

The manager's `Register` and `Unregister` can be called by themselves, too.
-/
import VMSmith.Lib.Pool
import VMSmith.Api.WebhookHandlers

namespace VMSmith

inductive HookOp where
  | update (id : String) (req : WebhookUpdateSpec)
  | delete (id : String)
  | test (id : String)
  | register (wh : Webhook)
  | unregister (id : String)
  deriving DecidableEq, Repr

namespace HookOp

/-- A request that the manager is told of. -/
def isChange : HookOp → Bool
  | update _ _ | delete _ => true
  | _ => false

def isRequest : HookOp → Bool
  | update _ _ | delete _ | test _ => true
  | _ => false

/-- The webhook a call is about. -/
def target : HookOp → String
  | update id _ | delete id | test id | unregister id => id
  | register wh => wh.id

def body : HookOp → HookM Unit
  | .update id req => do
      let _ ← Api.updateWebhook id req
      return ()
  | .delete id => Api.deleteWebhook id
  | .test id => do
      let _ ← Api.testDeliver id
      return ()
  | .register wh => hookCmd (.register wh)
  | .unregister id => hookCmd (.unregister id)

end HookOp

/-! ### What a request has been answered -/

structure HookView where
  /-- The record it has read, and the ID it asked for. -/
  read : Option (String × Webhook) := none
  /-- It has written a patched record. -/
  wrote : Bool := false
  /-- It has deleted the record. -/
  dropped : Bool := false
  /-- The webhook it has written or deleted without having told the manager all of it. -/
  unsettled : Option String := none
  deriving DecidableEq, Repr

/-- What one answer adds. -/
def HookView.add (v : HookView) : (c : HookCmd) → c.Resp → HookView
  | .getWebhook id, .ok wh => { v with read := some (id, wh) }
  | .putWebhook wh (.patch _), .ok _ => { v with wrote := true, unsettled := some wh.id }
  | .deleteWebhook id, .ok _ => { v with dropped := true, unsettled := some id }
  | .register _, _ => { v with unsettled := none }
  | .unregister _, _ => if v.dropped then { v with unsettled := none } else v
  | _, _ => v

abbrev HookLog := Prog.Log HookCmd HookCmd.Resp

def HookLog.view (log : HookLog) : HookView := Prog.Log.account HookView.add {} log

/-- A step that is no request's. -/
inductive HookMove where
  /-- The bus, or somebody else at it. -/
  | bus (l : BusLabel)
  | worker (k : Nat) (move : WorkerMove)
  deriving DecidableEq, Repr

namespace HookWorld

/-- Nobody but a worker reads its channel or cancels its subscription. -/
def foreign (w : HookWorld) : BusLabel → Bool
  | .recv key | .cancel key => w.workers.all fun worker => worker.sub ≠ key
  | _ => true

def move (cfg : HookConfig) : HookMove → HookWorld → Option HookWorld
  | .bus l, w => if w.foreign l then (w.bus.step l).map fun bus => { w with bus := bus } else none
  | .worker k m, w =>
      match w.workers[k]? with
      | none => none
      | some worker => if m.isReader then w.readerStep k worker m else w.deliveryStep cfg k worker m

end HookWorld

abbrev HookSys := Pool HookOp HookCmd HookCmd.Resp Err Unit HookWorld

abbrev HookLabel := PoolLabel HookOp HookChoice HookMove

abbrev HookCall := Thread HookOp HookCmd HookCmd.Resp Err Unit

def HookCall.view (t : HookCall) : HookView := HookLog.view t.log

/-- A store as the requests leave it: each record under its own ID. -/
structure StoredHooks where
  hooks : Bucket String Webhook
  keyed : ∀ id wh, hooks.get? id = some wh → wh.id = id

namespace HookSys

/-- `Start`: a worker for every active webhook. -/
def start (stored : StoredHooks) (events : EventStore) : HookWorld :=
  stored.hooks.values.foldl HookWorld.register
    { hooks := stored.hooks, bus := BusSys.init events }

def init (stored : StoredHooks) (events : EventStore) : HookSys := { world := start stored events }

def step (cfg : HookConfig) : HookSys → HookLabel → Option HookSys :=
  Pool.step HookOp.body HookWorld.exec (HookWorld.move cfg)

end HookSys

end VMSmith
