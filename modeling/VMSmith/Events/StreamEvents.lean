/-
One event-stream request next to the bus.

The handler reads the missed events from the store, writes them, subscribes to the
bus and from then on writes what arrives on its channel.  None of these steps
holds a lock over the next, so the bus goroutine, the publishers and the other
subscribers move between any two of them.  `Label` names whose turn it is and
`step` takes that turn; a schedule is a list of labels.

The request carries no filter: every event that reaches the handler is written.
-/
import VMSmith.Events.Bus
import VMSmith.Lib.Run

namespace VMSmith

def sseReplayLimit : Nat := 1000

/-- What an SSE frame carries after its ID and event lines. -/
inductive FrameData where
  | event (evt : Event)
  | text (s : String)
  deriving DecidableEq, Repr

/-- One SSE frame.  An empty ID writes no ID line. -/
structure Frame where
  id : String
  event : String
  data : FrameData
  deriving DecidableEq, Repr

/-- The frame of an event. -/
def Frame.ofEvent (evt : Event) : Frame := ⟨evt.id, evt.type, .event evt⟩

/-- The frame a stream ends with when the server goes down. -/
def Frame.shutdown : Frame := ⟨"", "shutdown", .text "\x7b\"message\":\"server is shutting down\"\x7d"⟩

/-- Where the handler stands. -/
inductive StreamPC where
  /-- Nothing read yet. -/
  | start
  /-- Writing the replay; these are left. -/
  | replaying (rest : List Event)
  /-- Subscribed under this key. -/
  | live (key : Nat)
  /-- Refused with 410: too far behind. -/
  | gone
  /-- Returned. -/
  | done
  deriving DecidableEq, Repr

/-- The store, the bus and the one request. -/
structure StreamSys where
  store : EventStore
  bus : EventBus
  stream : StreamPC := .start
  written : List Frame := []
  deriving DecidableEq

/-- Whose turn it is. -/
inductive StreamLabel where
  | publish (evt : Event) (now : Nat)
  | process (persisted : Bool) (now : Nat)
  | snapshot (order : List Nat)
  | send
  /-- Another client subscribes, leaves, or takes an event. -/
  | otherSubscribe (name : String)
  | otherCancel (key : Nat)
  | otherRecv (key : Nat)
  /-- The handler's own steps. -/
  | listReplay
  | writeReplay
  | subscribeLive (name : String)
  | writeLive
  | shutdown
  | disconnect
  deriving DecidableEq, Repr

namespace StreamSys

/-- The handler's key, once it has one. -/
def liveKey (s : StreamSys) : Option Nat :=
  match s.stream with
  | .live key => some key
  | _ => none

/-- The replay read: nothing without a resume point, 410 past the limit. -/
def listReplay (afterSeq : Nat) (s : StreamSys) : Option StreamSys :=
  match s.stream with
  | .start =>
      if 0 < afterSeq then
        let got := s.store.listEventsAfterSeq afterSeq (sseReplayLimit + 1)
        if sseReplayLimit < got.length then some { s with stream := .gone }
        else some { s with stream := .replaying got }
      else some { s with stream := .replaying [] }
  | _ => none

/-- Write the next replayed event. -/
def writeReplay (s : StreamSys) : Option StreamSys :=
  match s.stream with
  | .replaying (evt :: rest) =>
      some { s with stream := .replaying rest, written := s.written ++ [Frame.ofEvent evt] }
  | _ => none

/-- Subscribe, once the replay is written. -/
def subscribeLive (s : StreamSys) (name : String) : Option StreamSys :=
  match s.stream with
  | .replaying [] =>
      let (key, bus) := s.bus.subscribe name
      some { s with stream := .live key, bus := bus }
  | _ => none

/-- Take an event off the channel and write it. -/
def writeLive (s : StreamSys) : Option StreamSys :=
  match s.stream with
  | .live key =>
      (s.bus.recv key).map fun (evt, bus) =>
        { s with bus := bus, written := s.written ++ [Frame.ofEvent evt] }
  | _ => none

/-- The live loop ends; the deferred cancel runs. -/
def leave (s : StreamSys) (last : List Frame) : Option StreamSys :=
  match s.stream with
  | .live key =>
      some { s with stream := .done, bus := s.bus.cancel key, written := s.written ++ last }
  | _ => none

/-- One step of the system.  The other clients never act under the handler's key. -/
def step (afterSeq : Nat) (s : StreamSys) : StreamLabel → Option StreamSys
  | .publish evt now => some { s with bus := s.bus.publish evt now }
  | .process persisted now =>
      (s.bus.process s.store persisted now).map fun (bus, store) =>
        { s with bus := bus, store := store }
  | .snapshot order => (s.bus.snapshot order).map fun bus => { s with bus := bus }
  | .send => s.bus.send.map fun bus => { s with bus := bus }
  | .otherSubscribe name => some { s with bus := (s.bus.subscribe name).2 }
  | .otherCancel key =>
      if s.liveKey = some key then none else some { s with bus := s.bus.cancel key }
  | .otherRecv key =>
      if s.liveKey = some key then none
      else (s.bus.recv key).map fun (_, bus) => { s with bus := bus }
  | .listReplay => s.listReplay afterSeq
  | .writeReplay => s.writeReplay
  | .subscribeLive name => s.subscribeLive name
  | .writeLive => s.writeLive
  | .shutdown => s.leave [Frame.shutdown]
  | .disconnect => s.leave []

/-- A request about to be served, over any stored history and any subscribers. -/
structure Initial (s : StreamSys) : Prop where
  store : s.store.Stamped
  idle : s.bus.pc = .idle
  start : s.stream = .start
  written : s.written = []
  keys : ∀ sub ∈ s.bus.subscribers, sub.key ≤ s.bus.subSeq
  distinct : (s.bus.subscribers.map Subscriber.key).Nodup

end StreamSys

end VMSmith
