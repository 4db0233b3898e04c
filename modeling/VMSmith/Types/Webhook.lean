/-
Webhooks.

The configuration of a webhook is what its worker needs to deliver events; the delivery
status is written back after each of them.  `WebhookUpdateSpec` is a patch, where an absent
field is no change.
-/
import VMSmith.Types.VM
import VMSmith.Events.EventStore

namespace VMSmith

open Go (trimSpace)

/-- What is delivered where, and whether. -/
structure WebhookConfig where
  url : String
  secret : String
  eventTypes : List String := []
  active : Bool := true
  deriving DecidableEq, Repr

structure Webhook extends WebhookConfig where
  id : String
  description : String := ""
  tags : List String := []
  createdAt : Nat := 0
  /-- Zero if never attempted. -/
  lastDeliveryAt : Nat := 0
  lastStatus : Nat := 0
  lastError : String := ""
  deriving DecidableEq, Repr

abbrev Webhook.config (wh : Webhook) : WebhookConfig := wh.toWebhookConfig

structure WebhookUpdateSpec where
  url : Option String := none
  secret : Option String := none
  eventTypes : Option (List String) := none
  active : Option Bool := none
  description : Option String := none
  tags : Option (List String) := none
  deriving DecidableEq, Repr

/-- `normalizeEventTypes`: each type once, in the order given. -/
def normalizeEventTypes (types : List String) : List String :=
  ((types.map trimSpace).filter (· ≠ "")).eraseDups

/-- `eventTypeSetsEqual`: a filter list is a set, so its order is no difference. -/
def eventTypeSetsEqual (a b : List String) : Bool := a.length = b.length && b.isPerm a

/-- The event types that a patch leaves. -/
def patchEventTypes (types current : List String) : List String :=
  if eventTypeSetsEqual (normalizeEventTypes types) current then current
  else normalizeEventTypes types

/-- The configuration with the patch's fields in their places. -/
def WebhookUpdateSpec.apply (req : WebhookUpdateSpec) (c : WebhookConfig) : WebhookConfig where
  url := (req.url.map trimSpace).getD c.url
  secret := (req.secret.map trimSpace).getD c.secret
  eventTypes := (req.eventTypes.map fun types => patchEventTypes types c.eventTypes).getD c.eventTypes
  active := req.active.getD c.active

/-- One entry of a filter list: an exact type, or a prefix ending in `.*`. -/
def eventTypeMatches (eventType want : String) : Bool :=
  let want := trimSpace want
  if want = "" then false
  else if Go.hasSuffix want ".*" then Go.hasPrefix eventType (Go.trimSuffix want "*")
  else want = eventType

/-- `matchesType`: an empty filter list matches every type. -/
def Webhook.matchesType (wh : Webhook) (eventType : String) : Bool :=
  wh.eventTypes.isEmpty || wh.eventTypes.any (eventTypeMatches eventType)

example : (Webhook.mk ⟨"u", "s", ["webhook.*", " vm.created "], true⟩ "w" "" [] 0 0 0 "").matchesType
    "webhook.delivery_failed" = true := by decide

end VMSmith
