/-
The webhook manager and its workers.

A worker is two goroutines over one subscription.  The reader takes events off the
subscription's channel, filters them and puts them on a queue of bounded length; the
delivery loop takes them off the queue and posts each to the receiver, several times if
need be.  Both end when the worker has been told to stop, but a select with other work
ready may take that first.

A worker has its own copy of the webhook, made when it was started, and persists the whole
of it after each delivery.

What the receiver answers, and what the checks of its address find, is the world's.  The
manager's own `Stop` is left out, and with it the cancelled context.
-/
import VMSmith.Types.Webhook
import VMSmith.Events.BusSystem
import VMSmith.System.Store
import VMSmith.Lib.Prog
import VMSmith.Lib.Records

namespace VMSmith

/-- The depth of a worker's queue. -/
def queueSize : Nat := 1000

/-- `Config`. -/
structure HookConfig where
  /-- The wait before each retry, in seconds. -/
  backoff : List Nat := [1, 5, 30, 120, 600]
  deriving DecidableEq, Repr

/-- An event in a worker's hands.  Which of the processed events it is the code does not
see. -/
structure Parcel where
  index : Nat
  event : Event
  deriving DecidableEq, Repr

/-- Where a worker's reader stands. -/
inductive ReaderPC where
  | idle
  | holding (p : Parcel)
  /-- The queue was full. -/
  | overflowed (p : Parcel)
  | ended
  deriving DecidableEq, Repr

/-- Where a worker's delivery loop stands. -/
inductive DeliveryPC where
  | idle
  | validating (p : Parcel)
  /-- About to post; `attempt` posts were made before. -/
  | sending (p : Parcel) (attempt : Nat)
  | waiting (p : Parcel) (attempt : Nat)
  | succeeded (status : Nat)
  | failed (p : Parcel) (message : String) (status : Nat)
  /-- The failure is persisted and not published yet. -/
  | reporting (p : Parcel) (message : String) (status : Nat)
  /-- `run` has returned; the subscription is to be cancelled. -/
  | leaving
  | ended
  deriving DecidableEq, Repr

structure Worker where
  /-- Its own copy. -/
  hook : Webhook
  /-- The key of its subscription. -/
  sub : Nat
  queue : List Parcel := []
  /-- It has been told to stop. -/
  stopped : Bool := false
  reader : ReaderPC := .idle
  delivery : DeliveryPC := .idle
  deriving DecidableEq, Repr

/-- Which write of a webhook's record it is: a patch, or the status of a delivery.  The
store does not see this. -/
abbrev HookWrite := Records.Write WebhookUpdateSpec

/-- A write or a deletion of a webhook's record that went through. -/
abbrev HookMark := Records.Mark String WebhookUpdateSpec

/-- A 2xx answer that a worker got. -/
structure Ack where
  worker : Nat
  parcel : Parcel
  deriving DecidableEq, Repr

/-- An event that a worker published about the one it failed to deliver or to queue. -/
structure Report where
  worker : Nat
  cause : Parcel
  event : Event
  /-- Which of the events accepted by the bus it is, if it was accepted. -/
  position : Option Nat
  /-- The workers whose reports led to it, one by way of the other, its own first. -/
  chain : List Nat
  /-- Which of the accepted events it all began with. -/
  root : Nat
  deriving DecidableEq, Repr

/-- The bucket of the store, the bus, and the manager with every worker it has started;
`registered` is the manager's map.  `history`, `acks` and `reports` are what has happened. -/
structure HookWorld where
  hooks : Bucket String Webhook
  bus : BusSys
  workers : List Worker := []
  registered : Bucket String Nat := Bucket.empty
  history : List HookMark := []
  acks : List Ack := []
  reports : List Report := []
  deriving DecidableEq

namespace BusSys

def publish (b : BusSys) (evt : Event) (now : Nat) : BusSys := (b.step (.publish evt now)).getD b

def subscribe (b : BusSys) (name : String) : BusSys := (b.step (.subscribe name)).getD b

def cancel (b : BusSys) (key : Nat) : BusSys := (b.step (.cancel key)).getD b

/-- How many events have been taken off a channel. -/
def takenCount (b : BusSys) (key : Nat) : Nat := (b.taken.filter fun t => t.key = key).length

/-- The events that were put on a channel, in order. -/
def parcels (b : BusSys) (key : Nat) : List Parcel :=
  (b.delivered key).filterMap fun i => b.processed[i]?.map fun e => ⟨i, e.1⟩

end BusSys

/-- `NewSystemEventWithAttrs`. -/
def newSystemEventWithAttrs (type severity message : String) (attributes : List (String × String)) (now : Nat) :
    Event where
  type := type
  source := "system"
  severity := severity
  message := message
  attributes := attributes
  occurredAt := now

namespace Worker

/-- The event of `recordFailure`. -/
def failureEvent (w : Worker) (evt : Event) (message : String) (status now : Nat) : Event :=
  newSystemEventWithAttrs "webhook.delivery_failed" "warn" "webhook delivery failed after retries"
    ([("webhook_id", w.hook.id), ("url", w.hook.url), ("event_id", evt.id), ("event_type", evt.type),
      ("error", message)] ++ if 0 < status then [("last_status", toString status)] else []) now

/-- The event of `publishOverflow`. -/
def overflowEvent (w : Worker) (evt : Event) (now : Nat) : Event :=
  newSystemEventWithAttrs "webhook.queue_overflow" "warn" "webhook delivery queue overflowed; event dropped"
    [("webhook_id", w.hook.id), ("event_id", evt.id), ("event_type", evt.type)] now

/-- The worker's copy after a delivery. -/
def recorded (w : Worker) (now status : Nat) (error : String) : Worker :=
  { w with hook := { w.hook with lastDeliveryAt := now, lastStatus := status, lastError := error } }

/-- `matchesType`. -/
def wants (w : Worker) (p : Parcel) : Bool := w.hook.matchesType p.event.type

end Worker

namespace HookWorld

/-! ### The manager -/

/-- `Unregister`: forget the worker and signal it. -/
def unregister (w : HookWorld) (id : String) : HookWorld :=
  match w.registered.get? id with
  | none => w
  | some k => { w with
      registered := w.registered.erase id
      workers := w.workers.modify k fun worker => { worker with stopped := true } }

/-- `startWorkerLocked`: nothing to do while there is a worker of that ID. -/
def startWorker (w : HookWorld) (wh : Webhook) : HookWorld :=
  match w.registered.get? wh.id with
  | some _ => w
  | none =>
      let bus := w.bus.subscribe ("webhook-" ++ wh.id)
      { w with
        bus := bus
        workers := w.workers ++ [{ hook := wh, sub := bus.bus.subSeq }]
        registered := w.registered.put wh.id w.workers.length }

/-- `Register`. -/
def register (w : HookWorld) (wh : Webhook) : HookWorld := if wh.active then w.startWorker wh else w

/-- `PutWebhook`. -/
def putWebhook (w : HookWorld) (wh : Webhook) (why : HookWrite) : HookWorld :=
  { w with hooks := w.hooks.put wh.id wh, history := .wrote wh.id why :: w.history }

def setWorker (w : HookWorld) (k : Nat) (worker : Worker) : HookWorld :=
  { w with workers := w.workers.set k worker }

/-- A worker has got a 2xx answer. -/
def acknowledge (w : HookWorld) (k : Nat) (p : Parcel) : HookWorld :=
  { w with acks := w.acks ++ [{ worker := k, parcel := p }] }

/-- The report that the event in this position is, if it is one. -/
def reportAt (w : HookWorld) (n : Nat) : Option Report :=
  w.reports.find? fun r => r.position = some n

/-- The workers whose reports led to the event in this position. -/
def chainOf (w : HookWorld) (n : Nat) : List Nat := ((w.reportAt n).map Report.chain).getD []

/-- The position of the event that the one in this position began with. -/
def rootOf (w : HookWorld) (n : Nat) : Nat := ((w.reportAt n).map Report.root).getD n

/-- A worker publishes a report. -/
def report (w : HookWorld) (k : Nat) (cause : Parcel) (evt : Event) (now : Nat) : HookWorld :=
  let bus := w.bus.publish evt now
  { w with
    bus := bus
    reports := w.reports ++ [{
      worker := k, cause := cause, event := evt
      position := if w.bus.accepted.length < bus.accepted.length then some w.bus.accepted.length
        else none
      chain := k :: w.chainOf cause.index, root := w.rootOf cause.index }] }

end HookWorld

/-! ### A worker's steps -/

inductive WorkerMove where
  /-- The reader takes an event off the channel. -/
  | take
  | enqueue
  | publishOverflow (now : Nat)
  | stopReader
  | dequeue
  /-- What `validateTarget` finds wrong, if anything. -/
  | validate (found : Option String)
  /-- The post fails, or is answered with a status. -/
  | send (failure : Option String) (status : Nat)
  | timer
  /-- The wait before a retry is cut short by the signal to stop. -/
  | abandon
  | recordSuccess (now : Nat) (persisted : Bool)
  | recordFailure (now : Nat) (persisted : Bool)
  | publishFailure (now : Nat)
  /-- The delivery loop sees the signal to stop. -/
  | stopDelivery
  | cancelSub
  deriving DecidableEq, Repr

def WorkerMove.isReader : WorkerMove → Bool
  | take | enqueue | publishOverflow _ | stopReader => true
  | _ => false

namespace HookWorld

variable (cfg : HookConfig)

/-- Persist the worker's copy, if the store takes it. -/
def persist (w : HookWorld) (persisted : Bool) (worker : Worker) : HookWorld :=
  if persisted then w.putWebhook worker.hook .touch else w

/-- After a post that was not answered well. -/
def retryOrFail (worker : Worker) (p : Parcel) (attempt : Nat) (message : String) (status : Nat) :
    Worker :=
  if attempt < cfg.backoff.length then { worker with delivery := .waiting p (attempt + 1) }
  else { worker with delivery := .failed p message status }

/-- The reader of worker `k`. -/
def readerStep (w : HookWorld) (k : Nat) (worker : Worker) : WorkerMove → Option HookWorld
  | .take =>
      match worker.reader, w.bus.channel worker.sub with
      | .idle, evt :: _ =>
          let index := ((w.bus.delivered worker.sub)[w.bus.takenCount worker.sub]?).getD 0
          (w.bus.step (.recv worker.sub)).map fun bus =>
            { w with bus := bus }.setWorker k { worker with reader := .holding ⟨index, evt⟩ }
      | _, _ => none
  | .enqueue =>
      match worker.reader with
      | .holding p => some <| w.setWorker k <|
          if worker.wants p then
            if worker.queue.length < queueSize then
              { worker with queue := worker.queue ++ [p], reader := .idle }
            else { worker with reader := .overflowed p }
          else { worker with reader := .idle }
      | _ => none
  | .publishOverflow now =>
      match worker.reader with
      | .overflowed p => some <|
          (w.report k p (worker.overflowEvent p.event now) now).setWorker k { worker with reader := .idle }
      | _ => none
  | .stopReader =>
      if worker.reader = .idle ∧ worker.stopped then
        some (w.setWorker k { worker with reader := .ended })
      else none
  | _ => none

/-- The delivery loop of worker `k`. -/
def deliveryStep (w : HookWorld) (k : Nat) (worker : Worker) (move : WorkerMove) : Option HookWorld :=
  match move, worker.delivery with
  | .dequeue, .idle =>
      match worker.queue with
      | [] => none
      | p :: rest => some (w.setWorker k { worker with queue := rest, delivery := .validating p })
  | .validate found, .validating p => some <| w.setWorker k <|
      match found with
      | none => { worker with delivery := .sending p 0 }
      | some message => { worker with delivery := .failed p message 0 }
  | .send (some message) _, .sending p attempt =>
      some (w.setWorker k (retryOrFail cfg worker p attempt message 0))
  | .send none status, .sending p attempt =>
      if 200 ≤ status ∧ status < 300 then
        some ((w.acknowledge k p).setWorker k { worker with delivery := .succeeded status })
      else some (w.setWorker k (retryOrFail cfg worker p attempt ("HTTP " ++ toString status) status))
  | .timer, .waiting p attempt => some (w.setWorker k { worker with delivery := .sending p attempt })
  | .abandon, .waiting _ _ =>
      if worker.stopped then some (w.setWorker k { worker with delivery := .idle }) else none
  | .recordSuccess now persisted, .succeeded status =>
      let worker := worker.recorded now status ""
      some ((w.persist persisted worker).setWorker k { worker with delivery := .idle })
  | .recordFailure now persisted, .failed p message status =>
      let worker := worker.recorded now status message
      some ((w.persist persisted worker).setWorker k
        { worker with delivery := .reporting p message status })
  | .publishFailure now, .reporting p message status =>
      some ((w.report k p (worker.failureEvent p.event message status now) now).setWorker k
        { worker with delivery := .idle })
  | .stopDelivery, .idle =>
      if worker.stopped then some (w.setWorker k { worker with delivery := .leaving }) else none
  | .cancelSub, .leaving =>
      some ({ w with bus := w.bus.cancel worker.sub }.setWorker k { worker with delivery := .ended })
  | _, _ => none

end HookWorld

end VMSmith
