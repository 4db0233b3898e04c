/-
The request handlers that change, delete and test webhooks.

An update writes the whole record back and then has the manager tear the worker down and
start a new one.  A test posts once, by itself, and writes the record it has read back with
the status of that.
-/
import VMSmith.Webhooks.Manager
import VMSmith.Api.Validation

namespace VMSmith

/-- What a request asks of the store, the manager and the outside. -/
inductive HookCmd where
  | getWebhook (id : String)
  | putWebhook (wh : Webhook) (why : HookWrite)
  | deleteWebhook (id : String)
  | register (wh : Webhook)
  | unregister (id : String)
  | now
  /-- `validateTarget`: what is wrong with the address, if anything. -/
  | validateTarget (url : String)
  | post (url secret : String) (evt : Event)
  deriving DecidableEq, Repr

@[reducible] def HookCmd.Resp : HookCmd → Type
  | .getWebhook _ => Except Err Webhook
  | .putWebhook _ _ | .deleteWebhook _ => Except Err Unit
  | .register _ | .unregister _ => Unit
  | .now => Nat
  | .validateTarget _ => Option Err
  | .post _ _ _ => Except Err Nat

abbrev HookM (α : Type) := Prog HookCmd HookCmd.Resp Err α

def hookCmd (c : HookCmd) : HookM c.Resp := Prog.perform c

/-- What the world decides about one command. -/
structure HookChoice extends Choice where
  found : Option Err := none
  deriving DecidableEq, Repr

def HookWorld.exec : (c : HookCmd) → HookChoice → HookWorld → Option (c.Resp × HookWorld)
  | .getWebhook id, x, w => fallible x.toChoice w <|
      match w.hooks.get? id with
      | some wh => .ok (wh, w)
      | none => .error (.ext ("webhooks/" ++ id ++ ": not found"))
  | .putWebhook wh why, x, w => fallible x.toChoice w (.ok ((), w.putWebhook wh why))
  | .deleteWebhook id, x, w => fallible x.toChoice w (.ok ((), { w with
      hooks := w.hooks.erase id
      history := .deleted id :: w.history }))
  | .register wh, _, w => some ((), w.register wh)
  | .unregister id, _, w => some ((), w.unregister id)
  | .now, x, w => some (x.nat, w)
  | .validateTarget _, x, w => some (x.found, w)
  | .post _ _ _, x, w => fallible x.toChoice w (.ok (x.nat, w))

structure WebhookTestResult where
  success : Bool := false
  statusCode : Nat := 0
  error : String := ""
  durationMs : Nat := 0
  attemptedAt : Nat
  eventID : String
  deriving DecidableEq, Repr

namespace Api

open Go (trimSpace)

def checkWebhookURL (url : String) : Except Err String :=
  let url := trimSpace url
  if url = "" then .error (.api "invalid_url" "url is required")
  else if ¬ Go.hasPrefix url "http://" ∧ ¬ Go.hasPrefix url "https://" then
    .error (.api "invalid_url" "url must use http or https scheme")
  else .ok url

def checkWebhookSecret (secret : String) : Except Err String :=
  let secret := trimSpace secret
  if secret = "" then .error (.api "missing_secret" "secret cannot be empty") else .ok secret

/-- `validateWebhookDescription`, of a trimmed text. -/
def validateWebhookDescription (description : String) : Except Err String :=
  let description := trimSpace description
  if 1024 < description.utf8ByteSize then
    .error (.api "invalid_webhook" "description must be 1024 characters or fewer")
  else .ok description

/-- `validateWebhookTags`. -/
def validateWebhookTags (tags : List String) : Except Err (List String) :=
  match normalizeTags tags with
  | .error (.api _ message) => .error (.api "invalid_webhook" message)
  | r => r

/-- The record `UpdateWebhook` writes, once the request is decoded. -/
def patchWebhook (current : Webhook) (req : WebhookUpdateSpec) : Except Err Webhook := do
  rejectIf (req = {}) (.api "noop_update" "no fields to update")
  let url ← patchField req.url checkWebhookURL current.url
  let secret ← patchField req.secret checkWebhookSecret current.secret
  let eventTypes :=
    (req.eventTypes.map fun types => patchEventTypes types current.eventTypes).getD current.eventTypes
  let active := req.active.getD current.active
  let description ← patchField req.description validateWebhookDescription current.description
  let tags ← patchField req.tags validateWebhookTags current.tags
  return { current with
    url := url, secret := secret, eventTypes := eventTypes, active := active
    description := description, tags := tags }

/-- `redactWebhook`. -/
def redactWebhook (wh : Webhook) : Webhook := { wh with secret := "" }

/-- `UpdateWebhook`.  Without a change nothing is written. -/
def updateWebhook (id : String) (req : WebhookUpdateSpec) : HookM Webhook := do
  match ← hookCmd (.getWebhook id) with
  | .error _ => .throw (.api "resource_not_found" "webhook not found")
  | .ok current =>
      let updated ← Prog.ofExcept (patchWebhook current req)
      if updated = current then return redactWebhook updated
      match ← hookCmd (.putWebhook updated (.patch req)) with
      | .error _ => .throw (.api "internal_error" "failed to persist webhook")
      | .ok () =>
          hookCmd (.unregister updated.id)
          hookCmd (.register updated)
          return redactWebhook updated

/-- `DeleteWebhook`. -/
def deleteWebhook (id : String) : HookM Unit := do
  match ← hookCmd (.getWebhook id) with
  | .error _ => .throw (.api "resource_not_found" "webhook not found")
  | .ok _ =>
      match ← hookCmd (.deleteWebhook id) with
      | .error _ => .throw (.api "internal_error" "failed to delete webhook")
      | .ok () => hookCmd (.unregister id)

/-- `recordExternalDeliveryResult`: a write that fails is only logged. -/
def recordExternalDeliveryResult (hook : Webhook) (result : WebhookTestResult) : HookM Unit := do
  let _ ← hookCmd (.putWebhook { hook with
    lastDeliveryAt := result.attemptedAt
    lastStatus := result.statusCode
    lastError := if result.success then "" else result.error } .touch)
  return ()

/-- The event of `TestDeliver`. -/
def testEvent (webhookID : String) (now : Nat) : Event where
  id := "wh-test-" ++ toString now
  type := "system.webhook_test"
  source := "system"
  severity := "info"
  message := "synthetic test event from POST /api/v1/webhooks/{id}/test"
  attributes := [("webhook_id", webhookID)]
  occurredAt := now

/-- How a single post ended. -/
def testResult (result : WebhookTestResult) : Except Err Nat → WebhookTestResult
  | .error e => { result with error := e.text }
  | .ok status =>
      if 200 ≤ status ∧ status < 300 then { result with statusCode := status, success := true }
      else { result with statusCode := status, error := "HTTP " ++ toString status }

/-- `TestDeliver`. -/
def testDeliver (webhookID : String) : HookM WebhookTestResult := do
  match ← hookCmd (.getWebhook webhookID) with
  | .error _ => .throw (.api "resource_not_found" "webhook not found")
  | .ok hook =>
      let evt := testEvent webhookID (← hookCmd .now)
      let result : WebhookTestResult := { attemptedAt := (← hookCmd .now), eventID := evt.id }
      match ← hookCmd (.validateTarget hook.url) with
      | some e =>
          let result := { result with error := e.text }
          recordExternalDeliveryResult hook result
          return result
      | none =>
          let start ← hookCmd .now
          let answer ← hookCmd (.post hook.url hook.secret evt)
          let result := { testResult result answer with durationMs := (← hookCmd .now) - start }
          recordExternalDeliveryResult hook result
          return result

/-! ### What a patch does -/

theorem checkWebhookURL_ok {url new : String} (h : checkWebhookURL url = .ok new) :
    some (trimSpace url) = some new := by
  unfold checkWebhookURL at h
  dsimp only at h
  split_ifs at h
  rw [Except.ok.inj h]

theorem checkWebhookSecret_ok {secret new : String} (h : checkWebhookSecret secret = .ok new) :
    some (trimSpace secret) = some new := by
  unfold checkWebhookSecret at h
  dsimp only at h
  split_ifs at h
  rw [Except.ok.inj h]

/-- What `UpdateWebhook` writes is the old record with the patch's fields in their places. -/
theorem patchWebhook_ok {current updated : Webhook} {req : WebhookUpdateSpec}
    (h : patchWebhook current req = .ok updated) :
    updated.id = current.id ∧ updated.config = req.apply current.config := by
  unfold patchWebhook at h
  obtain ⟨_, -, h⟩ := bind_ok h
  obtain ⟨url, hurl, h⟩ := bind_ok h
  obtain ⟨secret, hsecret, h⟩ := bind_ok h
  obtain ⟨description, -, h⟩ := bind_ok h
  obtain ⟨tags, -, h⟩ := bind_ok h
  have hurl := patchField_ok (fun _ _ => checkWebhookURL_ok) hurl
  have hsecret := patchField_ok (fun _ _ => checkWebhookSecret_ok) hsecret
  rw [← Except.ok.inj h]
  refine ⟨rfl, ?_⟩
  have hmap : ∀ field : Option String,
      (field.bind fun n => some (trimSpace n)) = field.map trimSpace :=
    fun _ => Option.map_eq_bind.symm
  rw [hurl, hsecret, hmap, hmap]
  rfl

end Api

end VMSmith
