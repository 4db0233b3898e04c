/-
The event bus with everybody who uses it.

Publishers, subscribers, the bus goroutine and `Stop` take their steps in any order.  A
channel outlives its subscription: a copy that is under way may still reach it, its
subscriber may still read it, and the cancel function throws away what it finds in it.

Beside the bus the state keeps what has happened: the events accepted by the publish
channel, those processed, each with its number if it was stored, every attempt to hand
one to a subscriber with how full the channel was, and what was taken off each channel.
-/
import VMSmith.Events.Bus

namespace VMSmith

/-- One attempt to hand a processed event to a subscriber. -/
structure Offer where
  key : Nat
  /-- Which of the processed events. -/
  index : Nat
  /-- How full the channel was at that moment. -/
  fill : Nat
  deriving DecidableEq, Repr

/-- An event taken off a channel: by the subscriber, or by its cancel function. -/
structure Taken where
  key : Nat
  event : Event
  received : Bool
  deriving DecidableEq, Repr

structure BusSys where
  bus : EventBus := {}
  store : EventStore
  /-- Subscribers that have cancelled, with their channels. -/
  detached : List Subscriber := []
  stopping : Bool := false
  /-- The goroutine has ended and `Stop` returned. -/
  stopped : Bool := false
  /-- What the publish channel has accepted. -/
  accepted : List Event := []
  /-- How much of that was before `Stop` was called. -/
  acceptedAtStop : Option Nat := none
  /-- The processed events with their IDs, and their numbers where they were stored. -/
  processed : List (Event × Option Nat) := []
  /-- How many of them have been offered to everybody. -/
  finished : Nat := 0
  offers : List Offer := []
  taken : List Taken := []
  /-- How many events had begun to be processed when each subscription was made. -/
  since : List (Nat × Nat) := []
  /-- How many had been finished when each cancel function was first called. -/
  till : List (Nat × Nat) := []
  deriving DecidableEq

inductive BusLabel where
  | publish (evt : Event) (now : Nat)
  | subscribe (name : String)
  | cancel (key : Nat)
  /-- The cancel function throws an event away. -/
  | drain (key : Nat)
  | recv (key : Nat)
  /-- The goroutine stores an event, or fails to. -/
  | process (persisted : Bool) (now : Nat)
  | snapshot (order : List Nat)
  | send
  | stop
  /-- The goroutine finds the publish channel empty after `Stop` was called. -/
  | exit
  deriving DecidableEq, Repr

/-- The channel with this key. -/
def channelIn (subs : List Subscriber) (key : Nat) : List Event :=
  ((subs.find? (fun s => s.key = key)).map Subscriber.ch).getD []

/-- Change the channel with this key. -/
def modifyIn (subs : List Subscriber) (key : Nat) (f : List Event → List Event) : List Subscriber :=
  subs.map fun s => if s.key = key then { s with ch := f s.ch } else s

namespace BusSys

/-- Everybody who has ever subscribed. -/
def everybody (s : BusSys) : List Subscriber := s.bus.subscribers ++ s.detached

def channel (s : BusSys) (key : Nat) : List Event := channelIn s.everybody key

/-- The event the goroutine is about. -/
def current : BusPC → Option Event
  | .idle => none
  | .fanOut evt => some evt
  | .sending evt _ => some evt

/-- The count of finished events, when the bus goes on as `b`. -/
def finish (s : BusSys) (b : EventBus) : Nat := if b.pc = .idle then s.finished + 1 else s.finished

/-- Take the first event off a channel. -/
def take (s : BusSys) (key : Nat) (received : Bool) : Option BusSys :=
  match s.channel key with
  | [] => none
  | evt :: rest => some { s with
      bus := s.bus.modifyChannel key fun _ => rest
      detached := modifyIn s.detached key fun _ => rest
      taken := s.taken ++ [⟨key, evt, received⟩] }

def step (s : BusSys) : BusLabel → Option BusSys
  | .publish evt now =>
      let b := s.bus.publish evt now
      some { s with
        bus := b
        accepted := s.accepted ++ b.publishCh.drop s.bus.publishCh.length }
  | .subscribe name =>
      let (key, b) := s.bus.subscribe name
      some { s with bus := b, since := (key, s.processed.length) :: s.since }
  | .cancel key => some { s with
      bus := s.bus.cancel key
      detached := s.bus.subscribers.filter (fun sub => sub.key = key) ++ s.detached
      till := if s.bus.subscribers.any (fun sub => sub.key = key) then (key, s.finished) :: s.till
        else s.till }
  | .drain key => if s.detached.any (fun sub => sub.key = key) then s.take key false else none
  | .recv key => s.take key true
  | .process persisted now =>
      if s.stopped then none
      else (s.bus.process s.store persisted now).map fun (b, store) => { s with
        bus := b
        store := store
        processed := s.processed ++ (current b.pc).toList.map fun evt =>
          (evt, if persisted then some store.sequence else none) }
  | .snapshot order =>
      (s.bus.snapshot order).map fun b => { s with bus := b, finished := s.finish b }
  | .send =>
      match s.bus.pc with
      | .sending evt (key :: _) =>
          s.bus.send.map fun b => { s with
            bus := b
            detached := modifyIn s.detached key (EventBus.offer evt)
            offers := s.offers ++ [⟨key, s.processed.length - 1, (s.channel key).length⟩]
            finished := s.finish b }
      | _ => none
  | .stop => some { s with
      stopping := true
      acceptedAtStop := s.acceptedAtStop.or (some s.accepted.length) }
  | .exit =>
      if s.stopping ∧ s.bus.publishCh = [] ∧ s.bus.pc = .idle ∧ s.stopped = false then
        some { s with stopped := true }
      else none

/-- A new bus over a store. -/
def init (store : EventStore) : BusSys := { store := store }

/-! ### What subscribers get -/

/-- What the subscriber with this key has received, in order. -/
def received (s : BusSys) (key : Nat) : List Event :=
  (s.taken.filter fun t => t.key = key && t.received).map Taken.event

/-- Everything that has ever been on its channel, in order. -/
def history (s : BusSys) (key : Nat) : List Event :=
  (s.taken.filter fun t => t.key = key).map Taken.event ++ s.channel key

/-- The processed events that were put on its channel. -/
def delivered (s : BusSys) (key : Nat) : List Nat :=
  (s.offers.filter fun o => o.key = key && o.fill < subscriberBufSize).map Offer.index

end BusSys

end VMSmith
