/-
The routes of the daemon.

The table is the one `setupRoutes` builds.  How the router picks a route is its own
matter, as long as the route it picks has the request's method and a pattern that the path
matches.
-/
import VMSmith.Api.Auth
import VMSmith.Lib.Prog

namespace VMSmith.Api

open Go

/-- The handlers, by the names they have. -/
inductive Handler
  | docsUI | docsAssets | openapiSpec | getVersion | prometheusMetrics | webHandler
  | getLogs | listEvents | streamEvents
  | createVM | listVMs | bulkVMAction | importVMOVA | getTopVMs
  | getVM | exportVMOVA | cloneVM | updateVM | deleteVM
  | startVM | stopVM | forceStopVM | restartVM | rebootVM | suspendVM | resumeVM
  | createSnapshot | listSnapshots | bulkDeleteSnapshots | restoreSnapshot | updateSnapshot
  | deleteSnapshot
  | getVMStats | streamVMStats | streamOperationProgress
  | listPorts | addPort | bulkDeletePorts | updatePort | removePort
  | issueConsoleTicket | proxyConsole | attachGPU | detachGPU | moveVMDisk
  | listImages | createImage | uploadImage | bulkDeleteImages | updateImage | deleteImage
  | downloadImage
  | listTemplates | createTemplate | bulkDeleteTemplates | updateTemplate | deleteTemplate
  | listHosts | listHostInterfaces | listHostGPUs | getHostStats | listStorageLocations
  | getQuotaUsage
  | listWebhooks | createWebhook | bulkDeleteWebhooks | getWebhook | updateWebhook
  | deleteWebhook | testWebhook
  | listSchedules | createSchedule | getSchedule | updateSchedule | deleteSchedule
  | listScheduleRuns | runNowSchedule
  deriving DecidableEq, Repr

/-! ### Patterns -/

/-- One segment of a pattern. -/
inductive Segment
  | lit (text : Bytes)
  /-- `{name}`: any text up to the next slash. -/
  | param (name : Bytes)
  /-- `*`: everything that is left. -/
  | rest
  deriving DecidableEq, Repr

abbrev Pattern := List Segment

def Segment.ofText (s : Bytes) : Segment :=
  if s = ascii "*" then .rest
  else if s.head? = some 0x7B then .param (s.drop 1).dropLast
  else .lit s

/-- A pattern, as it is written. -/
def Pattern.ofText (s : String) : Pattern := ((Url.segments (ascii s)).getD []).map Segment.ofText

/-- The pattern matches these segments. -/
def Pattern.covers : Pattern → List Bytes → Bool
  | [], [] => true
  | [.rest], _ :: _ => true
  | .lit s :: p, x :: xs => decide (x = s) && Pattern.covers p xs
  | .param _ :: p, _ :: xs => Pattern.covers p xs
  | _, _ => false

/-- What is left of the segments behind the pattern. -/
def Pattern.strip : Pattern → List Bytes → Option (List Bytes)
  | [], segs => some segs
  | .lit s :: p, x :: xs => if x = s then Pattern.strip p xs else none
  | .param _ :: p, _ :: xs => Pattern.strip p xs
  | _, _ => none

/-! ### Routes -/

inductive Method
  | get | post | patch | delete
  deriving DecidableEq, Repr

def Method.text : Method → Bytes
  | get => ascii "GET"
  | post => ascii "POST"
  | patch => ascii "PATCH"
  | delete => ascii "DELETE"

structure Route where
  /-- The routers it is mounted in, the outermost first. -/
  mounts : List Pattern := []
  /-- `none` takes every method. -/
  method : Option Method
  pattern : Pattern
  handler : Handler
  /-- Behind `apiKeyAuth`. -/
  guarded : Bool := false
  deriving DecidableEq, Repr

/-- Where a mounted router finds itself. -/
def mountedAt (segs : List Bytes) : List Bytes := if segs = [] then [[]] else segs

/-- The path goes through the mounts to the pattern. -/
def leadsTo (pattern : Pattern) : List Pattern → List Bytes → Bool
  | [], segs => pattern.covers segs
  | m :: ms, segs => (m.strip segs).any fun rest => leadsTo pattern ms (mountedAt rest)

/-- The route is one for the request. -/
def Route.matches (ρ : Route) (r : Call) : Bool :=
  ρ.method.all (fun m => m.text = r.method) &&
    (Url.segments r.url.text).any (leadsTo ρ.pattern ρ.mounts)

def get (pattern : String) (h : Handler) : Route :=
  { method := some .get, pattern := .ofText pattern, handler := h }

def post (pattern : String) (h : Handler) : Route :=
  { method := some .post, pattern := .ofText pattern, handler := h }

def patch (pattern : String) (h : Handler) : Route :=
  { method := some .patch, pattern := .ofText pattern, handler := h }

def delete (pattern : String) (h : Handler) : Route :=
  { method := some .delete, pattern := .ofText pattern, handler := h }

/-- `Handle`. -/
def handle (pattern : String) (h : Handler) : Route :=
  { method := none, pattern := .ofText pattern, handler := h }

/-- A router over a table: for a request it finds a route that matches, if it finds one. -/
structure Mux (routes : List Route) where
  find : Call → Option Route
  documented : ∀ {r : Call} {ρ : Route}, find r = some ρ → ρ ∈ routes ∧ ρ.matches r = true

/-- The router that takes the first route that matches. -/
def Mux.first (routes : List Route) : Mux routes where
  find := fun r => routes.find? fun ρ => ρ.matches r
  documented := fun {r} {_} h =>
    ⟨List.mem_of_find?_eq_some h, List.find?_some (p := fun ρ : Route => ρ.matches r) h⟩

/-- What becomes of a request. -/
inductive Outcome
  /-- No handler is reached. -/
  | unrouted
  | refused (why : Refusal)
  /-- The handler runs, with the role of the key in the request's context. -/
  | reached (h : Handler) (role : Option Role)
  deriving DecidableEq, Repr

inductive VMVerb
  | start | stop | delete | restart | forceStop | reboot | suspend | resume
  deriving DecidableEq, Repr

structure BulkVMActionSpec where
  apply : VMVerb
  eventType : String
  verb : String
  deriving DecidableEq, Repr

/-- `supportedBulkVMActions`. -/
def supportedBulkVMActions : List (String × BulkVMActionSpec) :=
  [("start", ⟨.start, "vm.start_requested", "start"⟩),
   ("stop", ⟨.stop, "vm.stop_requested", "stop"⟩),
   ("delete", ⟨.delete, "vm.deleted", "delete"⟩),
   ("restart", ⟨.restart, "vm.restart_requested", "restart"⟩),
   ("force-stop", ⟨.forceStop, "vm.force_stop_requested", "force-stop"⟩),
   ("reboot", ⟨.reboot, "vm.reboot_requested", "reboot"⟩),
   ("suspend", ⟨.suspend, "vm.suspend_requested", "suspend"⟩),
   ("resume", ⟨.resume, "vm.resume_requested", "resume"⟩)]

/-- The order in which messages have them. -/
def supportedBulkVMActionsList : List String :=
  ["start", "stop", "delete", "restart", "force-stop", "reboot", "suspend", "resume"]

structure BulkVMActionRequest where
  action : String
  ids : List String
  deriving DecidableEq, Repr

structure BulkVMActionResult where
  id : String
  failure : Option Err := none
  deriving DecidableEq, Repr

inductive BulkCmd
  /-- A method of the manager, on one VM. -/
  | apply (verb : VMVerb) (id : String)
  | publish (eventType id message : String)
  deriving DecidableEq, Repr

def BulkCmd.Resp : BulkCmd → Type
  | apply _ _ => Except Err Unit
  | publish _ _ _ => Unit

abbrev BulkM := Prog BulkCmd BulkCmd.Resp Err

/-- The verb on each of these VMs. -/
def bulkApply (spec : BulkVMActionSpec) : List String → BulkM (List BulkVMActionResult)
  | [] => return []
  | rawID :: ids => do
      let id := trimSpace rawID
      let result ←
        if id = "" then
          pure { id := rawID, failure := some (.api "invalid_vm_id" "vm id cannot be empty") }
        else do
          match ← (Prog.perform (BulkCmd.apply spec.apply id) : BulkM (Except Err Unit)) with
          | .error e => pure { id := id, failure := some e }
          | .ok () =>
              let _ ← (Prog.perform (BulkCmd.publish spec.eventType id
                ("VM \"" ++ id ++ "\" " ++ spec.verb ++ " requested (bulk)")) : BulkM Unit)
              pure { id := id }
      return result :: (← bulkApply spec ids)

/-- `BulkVMAction`, of a body that was decoded so. -/
def bulkVMAction (role : Option Role) (decoded : Except Err BulkVMActionRequest) :
    BulkM (String × List BulkVMActionResult) := do
  let req ← Prog.ofExcept decoded
  let action := trimSpace (toLower req.action)
  match supportedBulkVMActions.lookup action with
  | none =>
      .throw (.api "invalid_bulk_action"
        ("action must be one of: " ++ join ", " supportedBulkVMActionsList))
  | some spec =>
      if action = "delete" ∧ requestRole role < .admin then
        .throw (.api "forbidden" "bulk delete requires the admin role")
      else if req.ids = [] then
        .throw (.api "invalid_bulk_request" "ids must contain at least one VM ID")
      else do
        let results ← bulkApply spec req.ids
        return (action, results)

end VMSmith.Api
