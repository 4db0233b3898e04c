/-
The event bus.

Publishers put events on a buffered channel; one goroutine takes them off it,
stores each one, and then copies it to every subscriber's channel.  The copy is
three kinds of step: the set of subscribers is read under the lock, in whatever
order the map yields them, and the event is then sent to each in turn.  A
subscription can come or go between any two of these steps, so each of them is a
step of its own here.

A subscriber's channel is a queue of bounded length; a send to a full one drops
the event.
-/
import VMSmith.Events.EventStore

namespace VMSmith

def subscriberBufSize : Nat := 64

def publishBufSize : Nat := 256

/-- A registered subscriber: its key in the subscriber map and its channel. -/
structure Subscriber where
  /-- The counter value that makes the key unique. -/
  key : Nat
  name : String
  ch : List Event := []
  deriving DecidableEq, Repr

/-- Where the bus goroutine stands. -/
inductive BusPC where
  /-- Waiting on the publish channel. -/
  | idle
  /-- The event has its ID; the subscribers are not read yet. -/
  | fanOut (evt : Event)
  /-- Sending to the subscribers that are left of those read. -/
  | sending (evt : Event) (subs : List Nat)
  deriving DecidableEq, Repr

/-- The state of the bus. -/
structure EventBus where
  publishCh : List Event := []
  subscribers : List Subscriber := []
  subSeq : Nat := 0
  pc : BusPC := .idle
  deriving DecidableEq, Repr

namespace EventBus

/-- `Publish`: stamp the times and queue the event, or drop it on a full queue. -/
def publish (b : EventBus) (evt : Event) (now : Nat) : EventBus :=
  let evt := if evt.occurredAt = 0 then { evt with occurredAt := now } else evt
  let evt := { evt with createdAt := evt.occurredAt }
  if b.publishCh.length < publishBufSize then { b with publishCh := b.publishCh ++ [evt] } else b

/-- `Subscribe`: a new key, an empty channel. -/
def subscribe (b : EventBus) (name : String) : Nat × EventBus :=
  let seq := b.subSeq + 1
  (seq, { b with
    subSeq := seq
    subscribers := b.subscribers ++ [{ key := seq, name := name }] })

/-- The cancel function `Subscribe` returns. -/
def cancel (b : EventBus) (key : Nat) : EventBus :=
  { b with subscribers := b.subscribers.filter (fun s => s.key ≠ key) }

/-- The channel of the subscriber with this key. -/
def channel (b : EventBus) (key : Nat) : List Event :=
  ((b.subscribers.find? (fun s => s.key = key)).map Subscriber.ch).getD []

/-- Change the channel of the subscriber with this key, if it is still there. -/
def modifyChannel (b : EventBus) (key : Nat) (f : List Event → List Event) : EventBus :=
  { b with subscribers := b.subscribers.map fun s => if s.key = key then { s with ch := f s.ch } else s }

/-- The first half of `process`: store the event and set its ID.  When the store
refuses it the event still goes out, under a transient ID. -/
def process (b : EventBus) (store : EventStore) (persisted : Bool) (now : Nat) :
    Option (EventBus × EventStore) :=
  match b.pc, b.publishCh with
  | .idle, evt :: rest =>
      if persisted then
        let (seq, store') := store.appendEvent evt
        some ({ b with publishCh := rest, pc := .fanOut { evt with id := toString seq } }, store')
      else
        some ({ b with
          publishCh := rest
          pc := .fanOut { evt with id := "transient-" ++ toString now } }, store)
  | _, _ => none

/-- After the sends that are left. -/
def afterSend (evt : Event) : List Nat → BusPC
  | [] => .idle
  | k :: ks => .sending evt (k :: ks)

/-- `fanOut` reads the subscribers, in an order of the map's choosing. -/
def snapshot (b : EventBus) (order : List Nat) : Option EventBus :=
  match b.pc with
  | .fanOut evt =>
      if order.Perm (b.subscribers.map Subscriber.key) then
        some { b with pc := afterSend evt order }
      else none
  | _ => none

/-- A send that does not wait: a full channel drops the event. -/
def offer (evt : Event) (ch : List Event) : List Event :=
  if ch.length < subscriberBufSize then ch ++ [evt] else ch

/-- One turn of the send loop. -/
def send (b : EventBus) : Option EventBus :=
  match b.pc with
  | .sending evt (k :: ks) =>
      some { b.modifyChannel k (offer evt) with pc := afterSend evt ks }
  | _ => none

/-- The subscriber with this key takes an event off its channel. -/
def recv (b : EventBus) (key : Nat) : Option (Event × EventBus) :=
  match b.channel key with
  | [] => none
  | evt :: rest => some (evt, b.modifyChannel key (fun _ => rest))

end EventBus

end VMSmith
