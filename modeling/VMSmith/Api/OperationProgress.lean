/-
Progress of long operations on a VM.

An operation publishes frames under its VM's ID, whole percents and then a last one that says it
is done, and the broker copies each to the channel of every subscriber to that VM.  A stream takes
the frames off its channel and writes them out; it ends with the first that says done.

Which operation a frame is of is not part of the frame: it is kept beside it here to say what a
stream has been told of.
-/
import VMSmith.Lib.Bucket
import VMSmith.Lib.Run

namespace VMSmith

namespace Api

structure OperationProgressMsg where
  op : String
  name : String := ""
  percent : Rat := 0
  done : Bool := false
  deriving DecidableEq, Repr

/-- A frame, with the operation it is of. -/
structure ProgressFrame where
  msg : OperationProgressMsg
  operation : Nat
  deriving DecidableEq, Repr

def progressBufSize : Nat := 8

/-- A subscriber's channel, registered under a key until it is cancelled. -/
structure ProgressSub where
  key : String
  registered : Bool := true
  ch : List ProgressFrame := []
  deriving DecidableEq, Repr

/-- A send that does not wait: a full channel drops the frame. -/
def ProgressSub.offer (key : String) (frame : ProgressFrame) (sub : ProgressSub) : ProgressSub :=
  if sub.registered = true ∧ sub.key = key ∧ sub.ch.length < progressBufSize then
    { sub with ch := sub.ch ++ [frame] }
  else sub

structure OperationProgressBroker where
  subs : List ProgressSub := []
  /-- The most recent frame of a VM. -/
  last : Bucket String ProgressFrame := Bucket.empty
  deriving DecidableEq

namespace OperationProgressBroker

/-- `publish`. -/
def publish (b : OperationProgressBroker) (key : String) (frame : ProgressFrame) : OperationProgressBroker where
  last := if frame.msg.done then b.last.erase key else b.last.put key frame
  subs := b.subs.map (ProgressSub.offer key frame)

/-- `subscribe`: the new channel is the last. -/
def subscribe (b : OperationProgressBroker) (key : String) : OperationProgressBroker :=
  { b with subs := b.subs ++ [{ key := key, ch := (b.last.get? key).toList }] }

/-- What `subscribe` returns to cancel with. -/
def cancel (b : OperationProgressBroker) (j : Nat) : OperationProgressBroker :=
  { b with subs := b.subs.modify j fun sub => { sub with registered := false } }

end OperationProgressBroker

/-- An operation on a VM, from its begin to the frame that says done. -/
structure ProgressOperation where
  key : String
  op : String
  name : String
  lastPct : Rat := -1
  running : Bool := true
  deriving DecidableEq, Repr

/-- Where a stream's handler stands. -/
inductive StreamPhase where
  | streaming
  /-- It has written a frame that says done; these operations on the VM were running then. -/
  | ended (running : List Nat)
  /-- The client has gone away, or a write has failed. -/
  | left
  deriving DecidableEq, Repr

structure ProgressStream where
  key : String
  /-- The frame being written. -/
  hand : Option ProgressFrame := none
  written : List ProgressFrame := []
  phase : StreamPhase := .streaming
  /-- The operations on the VM that came to their end while it was streaming. -/
  owed : List Nat := []
  deriving DecidableEq, Repr

/-- The operations that some frames say are done. -/
def doneIn (frames : List ProgressFrame) : List Nat :=
  (frames.filter fun frame => frame.msg.done).map ProgressFrame.operation

structure ProgressSys where
  broker : OperationProgressBroker := {}
  operations : List ProgressOperation := []
  /-- Each reads the channel at its own place. -/
  streams : List ProgressStream := []
  deriving DecidableEq

inductive ProgressLabel where
  | begin (key op name : String)
  /-- An operation calls back with its percentage. -/
  | progress (i : Nat) (percent : Rat)
  | finish (i : Nat)
  | subscribe (key : String)
  | take (j : Nat)
  | write (j : Nat)
  | leave (j : Nat)
  | cancel (j : Nat)
  deriving DecidableEq, Repr

namespace ProgressSys

/-- The operations on a VM that are running. -/
def running (s : ProgressSys) (key : String) : List Nat :=
  (List.range s.operations.length).filter fun i =>
    s.operations[i]?.any fun op => op.running && op.key = key

/-- The callback of `progressCallback`: whole percents only. -/
def progress (s : ProgressSys) (i : Nat) (op : ProgressOperation) (percent : Rat) : ProgressSys :=
  if 1 ≤ percent - op.lastPct ∨ 100 ≤ percent then
    { s with
      operations := s.operations.set i { op with lastPct := percent }
      broker := s.broker.publish op.key ⟨{ op := op.op, name := op.name, percent := percent }, i⟩ }
  else s

/-- The last frame of an operation. -/
def finish (s : ProgressSys) (i : Nat) (op : ProgressOperation) : ProgressSys :=
  { broker := s.broker.publish op.key ⟨{ op := op.op, name := op.name, done := true }, i⟩
    operations := s.operations.set i { op with running := false }
    streams := s.streams.map fun r =>
      if r.phase = .streaming ∧ r.key = op.key then { r with owed := r.owed ++ [i] } else r }

/-- A frame that is written; one that says done is the last. -/
def write (s : ProgressSys) (j : Nat) (r : ProgressStream) (frame : ProgressFrame) : ProgressSys :=
  { s with streams := s.streams.set j { r with
      hand := none
      written := r.written ++ [frame]
      phase := if frame.msg.done then .ended (s.running r.key) else .streaming } }

def step (s : ProgressSys) : ProgressLabel → Option ProgressSys
  | .begin key op name => some { s with operations := s.operations ++ [{ key := key, op := op, name := name }] }
  | .progress i percent =>
      match s.operations[i]? with
      | some op => if op.running then some (s.progress i op percent) else none
      | none => none
  | .finish i =>
      match s.operations[i]? with
      | some op => if op.running then some (s.finish i op) else none
      | none => none
  | .subscribe key => some { s with
      broker := s.broker.subscribe key
      streams := s.streams ++ [{ key := key }] }
  | .take j =>
      match s.streams[j]?, (s.broker.subs[j]?).map ProgressSub.ch with
      | some r, some (frame :: rest) =>
          if r.phase = .streaming ∧ r.hand = none then
            some { s with
              broker := { s.broker with subs := s.broker.subs.modify j fun sub => { sub with ch := rest } }
              streams := s.streams.set j { r with hand := some frame } }
          else none
      | _, _ => none
  | .write j =>
      match s.streams[j]? with
      | some r =>
          match r.phase, r.hand with
          | .streaming, some frame => some (s.write j r frame)
          | _, _ => none
      | none => none
  | .leave j =>
      match s.streams[j]? with
      | some r => if r.phase = .streaming then some { s with streams := s.streams.set j { r with phase := .left } } else none
      | none => none
  | .cancel j =>
      match s.streams[j]? with
      | some r => if r.phase = .streaming then none else some { s with broker := s.broker.cancel j }
      | none => none

end ProgressSys

end Api

end VMSmith
