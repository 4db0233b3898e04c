/-
The event stream as bytes, and the command line at its other end.

The server writes a frame for each event: its number, its type and the event itself as JSON,
a line each and an empty one after them.  `events follow` takes the frames apart again and
keeps the number of the last event it has read, with which it asks for the rest when the
connection is lost.  A connection may be lost anywhere, in the middle of a frame too.

Decoding JSON into an event and the spelling of a time are parameters.
-/
import VMSmith.Events.EventStore
import VMSmith.Lib.JsonValue
import VMSmith.Lib.Lines
import VMSmith.Lib.Runes

namespace VMSmith.Wire

open Go

/-! ### Writing -/

/-- `WriteEvent`. -/
def writeEvent (id name data : Bytes) : Bytes :=
  (if id = [] then [] else ascii "id: " ++ id ++ [0x0A]) ++
    (ascii "event: " ++ name ++ [0x0A]) ++ (ascii "data: " ++ data ++ [0x0A, 0x0A])

/-- `WriteComment`. -/
def writeComment (comment : Bytes) : Bytes := ascii ": " ++ comment ++ [0x0A, 0x0A]

/-- `Heartbeat`. -/
def heartbeat : Bytes := writeComment (ascii "keepalive")

/-- A field with a text in it; `omitEmpty` leaves an empty one out. -/
def textField (name : String) (omitEmpty : Bool) (text : String) (rest : Json.Pairs) : Json.Pairs :=
  if omitEmpty && text = "" then rest else .cons name.toList (.string text.toList) rest

/-- The texts under their keys, in the order of the keys. -/
def textMap (entries : List (String × String)) : Json.Pairs :=
  (entries.mergeSort fun a b => decide (a.1 ≤ b.1)).foldr
    (fun entry rest => .cons entry.1.toList (.string entry.2.toList) rest) .nil

section

variable (formatTime : Nat → String)

/-- The fields of an event, by their tags. -/
def eventFields (evt : Event) : Json.Pairs :=
  textField "id" false evt.id <|
  textField "type" false evt.type <|
  textField "source" false evt.source <|
  textField "vm_id" true evt.vmID <|
  textField "resource_id" true evt.resourceID <|
  textField "severity" false evt.severity <|
  textField "message" false evt.message <|
  (if evt.attributes = [] then id else .cons "attributes".toList (.object (textMap evt.attributes))) <|
  textField "actor" true evt.actor <|
  textField "occurred_at" false (formatTime evt.occurredAt) <|
  textField "created_at" false (formatTime evt.createdAt) .nil

/-- `json.Marshal`, of an event; there is no number in it. -/
def marshalEvent (evt : Event) : Bytes := (Json.Value.object (eventFields formatTime evt)).marshal id

/-- What the handler writes of an event. -/
def eventFrame (evt : Event) : Bytes :=
  writeEvent (utf8 evt.id.toList) (utf8 evt.type.toList) (marshalEvent formatTime evt)

/-- What goes over the wire: events, and heartbeats between them. -/
inductive Item where
  | event (evt : Event)
  | heartbeat

def Item.text : Item → Bytes
  | event evt => eventFrame formatTime evt
  | heartbeat => Wire.heartbeat

def write (items : List Item) : Bytes := items.flatMap (Item.text formatTime)

end

def Item.event? : Item → Option Event
  | event evt => some evt
  | heartbeat => none

/-! ### Reading -/

/-- What is kept from line to line; `frames` are the IDs and texts of those that have ended. -/
structure Parser where
  dataLines : List Bytes := []
  frameID : Bytes := []
  frames : List (Bytes × Bytes) := []
  deriving DecidableEq, Repr

/-- One line of `parseSSEStream`. -/
def Parser.line (st : Parser) (line : Bytes) : Parser :=
  if line = [] then
    { frames := if st.dataLines = [] then st.frames
                else st.frames ++ [(st.frameID, [0x0A].intercalate st.dataLines)] }
  else if (ascii ":").isPrefixOf line then st
  else if (ascii "id:").isPrefixOf line then { st with frameID := trimBytes (line.drop 3) }
  else if (ascii "event:").isPrefixOf line then st
  else if (ascii "data:").isPrefixOf line then
    { st with dataLines := st.dataLines ++ [trimBytes (line.drop 5)] }
  else st

/-- The size a line may grow to. -/
def maxToken : Nat := 1024 * 1024

/-- The frames of the body of a response. -/
def readFrames (body : Bytes) : List (Bytes × Bytes) :=
  ((scanLines maxToken [] body).1.foldl Parser.line {}).frames

/-- The command that follows the events. -/
structure Follower where
  lastID : Bytes := []
  printed : List Event := []
  deriving DecidableEq

section

variable (unmarshal : Bytes → Option Event) (shown : Event → Bool)

/-- One frame of `parseSSEStream`: an event takes the frame's ID if it has none. -/
def Follower.handle (c : Follower) (frame : Bytes × Bytes) : Follower :=
  match unmarshal frame.2 with
  | none => c
  | some evt =>
    let c := if frame.1 = [] then c else { c with lastID := frame.1 }
    let evt := if frame.1 ≠ [] ∧ evt.id = "" then { evt with id := latin1 frame.1 } else evt
    if shown evt then { c with printed := c.printed ++ [evt] } else c

/-- `parseSSEStream`. -/
def Follower.read (c : Follower) (body : Bytes) : Follower :=
  (readFrames body).foldl (Follower.handle unmarshal shown) c

/-- `followEventsStream`, over the bodies of its connections. -/
def follow (c : Follower) (bodies : List Bytes) : Follower :=
  bodies.foldl (Follower.read unmarshal shown) c

end

/-! ### Asking again -/

/-- `lastIDToSeq`. -/
def lastIDToSeq (id : Bytes) : Option Bytes :=
  let id := trimBytes id
  if id ≠ [] ∧ id.all (fun b => 0x30 ≤ b && b ≤ 0x39) then some id else none

/-- Where `StreamEvents` replays from: the number in `Last-Event-ID`, or the one in `since`;
zero replays nothing. -/
def resumePoint (lastEventID since : Bytes) : Nat :=
  if trimBytes lastEventID ≠ [] then (parseUint64 (latin1 (trimBytes lastEventID))).getD 0
  else if trimBytes since ≠ [] then (parseUint64 (latin1 (trimBytes since))).getD 0
  else 0

/-- Where a request of the command resumes. -/
def Follower.resume (c : Follower) : Nat :=
  resumePoint c.lastID ((lastIDToSeq c.lastID).getD [])

end VMSmith.Wire
