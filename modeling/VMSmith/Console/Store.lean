/-
Console tickets.

A ticket is a random token that stands, for a minute, for the API key of whoever asked for
it, one VM and one kind of console.  Redeeming it takes it out of the map, whether or not
it turns out to be good; a janitor takes out those that have expired.

Each of the calls reads the clock before it takes the lock, so what it has read may be old
by then.  What the random source yields is the world's, and so is how far the clock gets
between two readings.
-/
import VMSmith.Lib.Bucket
import VMSmith.Lib.Pool
import VMSmith.Types.VM

namespace VMSmith

namespace Console

/-- The life of a ticket, in nanoseconds. -/
def defaultTicketTTL : Nat := 60 * 10 ^ 9

def ErrTicketNotFound : Err := .ext "console ticket not found"

def ErrTicketExpired : Err := .ext "console ticket expired"

def ErrTicketVMMismatch : Err := .ext "console ticket vm mismatch"

def ErrTicketIntentMismatch : Err := .ext "console ticket intent mismatch"

structure Ticket where
  vmID : String
  apiKey : String
  intent : String
  expires : Nat
  deriving DecidableEq, Repr

/-- What a look for a token has found, and which of the issued tickets that was.  `time` and
`issued` count the looks and the tickets before it. -/
structure Look where
  found : Option (Nat × Ticket)
  time : Nat
  issued : Nat
  deriving DecidableEq, Repr

/-- The map of a `Store` and the clock it reads.  The tickets are numbered in the order in
which they were put there; `issued` has all of them. -/
structure StoreWorld where
  tickets : Bucket String (Nat × Ticket) := Bucket.empty
  clock : Nat := 0
  issued : List (String × Ticket) := []
  looks : Nat := 0
  deriving DecidableEq

inductive Cmd where
  | newToken
  | now
  /-- Put a ticket into the map. -/
  | put (token : String) (t : Ticket)
  /-- Look for a token and take it out. -/
  | take (token : String)
  | deleteExpired (now : Nat)
  deriving DecidableEq, Repr

/-- What the world decides: the random token, or how the random source fails, and how far
the clock has got since it was last read. -/
structure Choice where
  token : String := ""
  fail : Option Err := none
  elapsed : Nat := 0
  deriving DecidableEq, Repr

def Cmd.Resp : Cmd → Type
  | newToken => Except Err String
  | now => Nat
  | put _ _ => Nat
  | take _ => Look
  | deleteExpired _ => Unit

namespace StoreWorld

def put (w : StoreWorld) (token : String) (t : Ticket) : StoreWorld :=
  { w with tickets := w.tickets.put token (w.issued.length, t), issued := w.issued ++ [(token, t)] }

def take (w : StoreWorld) (token : String) : StoreWorld :=
  { w with tickets := w.tickets.erase token, looks := w.looks + 1 }

def look (w : StoreWorld) (token : String) : Look where
  found := w.tickets.get? token
  time := w.looks
  issued := w.issued.length

/-- `deleteExpired`. -/
def deleteExpired (w : StoreWorld) (now : Nat) : StoreWorld :=
  { w with tickets := w.tickets.filter fun _ t => now < t.2.expires }

def exec : (c : Cmd) → Choice → StoreWorld → Option (c.Resp × StoreWorld)
  | .newToken, x, w => some (x.fail.elim (.ok x.token) .error, w)
  | .now, x, w => some (w.clock + x.elapsed, { w with clock := w.clock + x.elapsed })
  | .put token t, _, w => some (w.issued.length, w.put token t)
  | .take token, _, w => some (w.look token, w.take token)
  | .deleteExpired now, _, w => some ((), w.deleteExpired now)

end StoreWorld

abbrev M := Prog Cmd Cmd.Resp Err

def cmd (c : Cmd) : M c.Resp := Prog.perform c

def newToken : M String := do
  let r ← cmd .newToken
  Prog.ofExcept r

def clock : M Nat := cmd .now

/-- What a call returns. -/
inductive Answer where
  | ticket (token : String) (expires : Nat)
  | apiKey (key : String)
  | swept
  deriving DecidableEq, Repr

/-- `IssueTicket`. -/
def issueTicket (ttl : Nat) (vmID apiKey intent : String) : M Answer := do
  let token ← newToken
  let now ← clock
  let expires := now + ttl
  let _ ← cmd (.put token { vmID := vmID, apiKey := apiKey, intent := intent, expires := expires })
  return .ticket token expires

/-- What `ConsumeTicket` makes of a ticket it has taken out. -/
def Ticket.redeem (t : Ticket) (now : Nat) (vmID intent : String) : Except Err String :=
  if ¬ now < t.expires then .error ErrTicketExpired
  else if t.vmID ≠ vmID then .error ErrTicketVMMismatch
  else if t.intent ≠ intent then .error ErrTicketIntentMismatch
  else .ok t.apiKey

/-- `ConsumeTicket`. -/
def consumeTicket (token vmID intent : String) : M Answer := do
  let now ← clock
  let look ← cmd (.take token)
  match look.found with
  | none => .throw ErrTicketNotFound
  | some (_, t) => do
      let key ← Prog.ofExcept (t.redeem now vmID intent)
      return .apiKey key

/-- A turn of the janitor. -/
def sweep : M Answer := do
  let now ← clock
  let _ ← cmd (.deleteExpired now)
  return .swept

inductive Op where
  | issue (vmID apiKey intent : String)
  | consume (token vmID intent : String)
  | sweep
  deriving DecidableEq, Repr

def Op.body (ttl : Nat) : Op → M Answer
  | issue vmID apiKey intent => issueTicket ttl vmID apiKey intent
  | consume token vmID intent => consumeTicket token vmID intent
  | sweep => Console.sweep

/-! ### What a call has been answered -/

structure View where
  /-- The clock reading. -/
  now : Option Nat := none
  /-- What it has put into the map, and which of the issued tickets that is. -/
  placed : Option (Nat × String × Ticket) := none
  look : Option Look := none
  deriving DecidableEq, Repr

/-- What one answer adds. -/
def View.add (v : View) : (c : Cmd) → c.Resp → View
  | .now, n => { v with now := some n }
  | .put token t, (n : Nat) => { v with placed := some (n, token, t) }
  | .take _, l => { v with look := some l }
  | .newToken, _ => v
  | .deleteExpired _, _ => v

abbrev Log := Prog.Log Cmd Cmd.Resp

def Log.view (log : Log) : View := Prog.Log.account View.add {} log

/-- The calls of one store. -/
abbrev Sys := Pool Op Cmd Cmd.Resp Err Answer StoreWorld

abbrev Label := PoolLabel Op Choice Empty

abbrev Call := Thread Op Cmd Cmd.Resp Err Answer

def Call.view (t : Call) : View := Log.view t.log

namespace Sys

def init : Sys := { world := {} }

def step (ttl : Nat) : Sys → Label → Option Sys :=
  Pool.step (Op.body ttl) StoreWorld.exec fun e _ => e.elim

end Sys

end Console

end VMSmith
