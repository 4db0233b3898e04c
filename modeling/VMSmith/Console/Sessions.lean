/-
Console sessions over WebSocket.

`ProxyConsole` checks how many sessions are registered, redeems the ticket, reaches for the
guest's console, upgrades the connection and registers the session; what it has deferred
takes the session out again when the proxying ends.  Only the registry is shared.  What
the ticket store, the manager, the guest and the browser answer is the world's, and so is
when a session ends.
-/
import VMSmith.Lib.Bucket
import VMSmith.Lib.Pool
import VMSmith.Lib.GoStrings
import VMSmith.Types.VM

namespace VMSmith

namespace Sessions

open Go (trimSpace toLower equalFold)

inductive ConsoleIntent
  | vnc | serial | rdp
  deriving DecidableEq, Repr

/-- What the handler reads of the daemon's configuration. -/
structure Config where
  /-- There is a ticket store. -/
  enabled : Bool := true
  tlsEnabled : Bool := false
  maxConcurrentSessions : Int := 0
  guacdAddress : String := ""

/-- What it reads of a request. -/
structure Request where
  tls : Bool := false
  forwardedProto : String := ""
  vmID : String
  ticket : String := ""
  intent : String := ""
  width : String := ""
  height : String := ""
  deriving DecidableEq, Repr

/-- `consoleSessions`: the sessions of each VM.  A session is known by when it was
allocated. -/
structure Registry where
  sessions : Bucket String (List Nat) := Bucket.empty
  allocated : Nat := 0
  deriving DecidableEq

namespace Registry

def ofVM (w : Registry) (vmID : String) : List Nat := (w.sessions.get? vmID).getD []

/-- `consoleSessionCount`. -/
def count (w : Registry) : Nat := w.sessions.total List.length

/-- `registerConsoleSession`, of a new session. -/
def register (w : Registry) (vmID : String) : Registry :=
  { sessions := w.sessions.put vmID (w.allocated :: w.ofVM vmID), allocated := w.allocated + 1 }

/-- `unregisterConsoleSession`. -/
def unregister (w : Registry) (vmID : String) (session : Nat) : Registry :=
  let rest := (w.ofVM vmID).erase session
  { w with sessions := if rest = [] then w.sessions.erase vmID else w.sessions.put vmID rest }

end Registry

inductive Cmd where
  | sessionCount
  | consumeTicket (ticket vmID : String) (intent : ConsoleIntent)
  | consoleEndpoint (vmID : String)
  | openSerial (vmID : String)
  | getVM (vmID : String)
  | dial (address : String)
  | guacdHandshake (ip : String) (width height : Int)
  | upgrade (subprotocol : String)
  | register (vmID apiKey : String)
  /-- Send the instruction that tells the browser its connection. -/
  | writeReady
  /-- Proxy until one side or the time is up. -/
  | proxy
  | closeTarget
  | closeSocket
  | unregister (vmID : String) (session : Nat)
  deriving DecidableEq, Repr

/-- What is read of a VM. -/
structure MachineInfo where
  running : Bool := true
  ip : String := ""
  deriving DecidableEq, Repr

def Cmd.Resp : Cmd → Type
  | sessionCount => Nat
  | consumeTicket _ _ _ => Except Err String
  | consoleEndpoint _ => Except Err (String × Nat)
  | getVM _ => Except Err MachineInfo
  | openSerial _ | dial _ | guacdHandshake _ _ _ | upgrade _ | writeReady => Except Err Unit
  | register _ _ => Nat
  | proxy | closeTarget | closeSocket | unregister _ _ => Unit

/-- What the world decides: whether and how a command fails, and what it yields. -/
structure Choice where
  fail : Option Err := none
  apiKey : String := ""
  host : String := ""
  port : Nat := 0
  machine : MachineInfo := {}
  deriving DecidableEq, Repr

/-- The answer, unless the world says otherwise. -/
def Choice.orFail {α : Type} (x : Choice) (a : α) : Except Err α := x.fail.elim (.ok a) .error

def exec : (c : Cmd) → Choice → Registry → Option (c.Resp × Registry)
  | .sessionCount, _, w => some (w.count, w)
  | .consumeTicket _ _ _, x, w => some (x.orFail x.apiKey, w)
  | .consoleEndpoint _, x, w => some (x.orFail (x.host, x.port), w)
  | .getVM _, x, w => some (x.orFail x.machine, w)
  | .openSerial _, x, w | .dial _, x, w | .guacdHandshake _ _ _, x, w | .upgrade _, x, w
  | .writeReady, x, w => some (x.orFail (), w)
  | .register vmID _, _, w => some (w.allocated, w.register vmID)
  | .proxy, _, w | .closeTarget, _, w | .closeSocket, _, w => some ((), w)
  | .unregister vmID session, _, w => some ((), w.unregister vmID session)

/-! ### The handler -/

abbrev M := Prog Cmd Cmd.Resp Err

def cmd (c : Cmd) : M c.Resp := Prog.perform c

/-- A command that may fail; `e` is the error reported then. -/
def orThrow {α : Type} (p : M (Except Err α)) (e : Err → Err) : M α := do
  match ← p with
  | .ok a => return a
  | .error err => .throw (e err)

/-- `consoleRequestUsedTLS`. -/
def Request.usedTLS (r : Request) : Bool := r.tls || equalFold (trimSpace r.forwardedProto) "https"

/-- `consoleIntentFromRequest`. -/
def Request.consoleIntent (r : Request) : Except Err ConsoleIntent :=
  match toLower (trimSpace r.intent) with
  | "" | "vnc" => .ok .vnc
  | "serial" => .ok .serial
  | "rdp" => .ok .rdp
  | _ => .error (.api "invalid_console_intent" "console intent must be one of: vnc, serial, rdp")

/-- `net.JoinHostPort`. -/
def joinHostPort (host : String) (port : Nat) : String :=
  (if ':' ∈ host.toList then "[" ++ host ++ "]" else host) ++ ":" ++ toString port

/-- `sanitizeConsoleTicketError`. -/
def sanitizeConsoleTicketError (e : Err) : Err :=
  if e = .ext "console ticket expired" then .api "unauthorized" "console ticket has expired"
  else .api "unauthorized" "invalid console ticket"

/-- From the upgrade on: the session is registered, `greet` is said, and what is deferred
runs when the proxying ends.  A failed upgrade has answered the request itself. -/
def serve (vmID apiKey subprotocol : String) (greet : M (Except Err Unit)) : M Unit := do
  match ← cmd (.upgrade subprotocol) with
  | .error e => do
      let _ ← cmd .closeTarget
      .throw e
  | .ok _ => do
      let session ← cmd (.register vmID apiKey)
      match ← greet with
      | .ok _ => do
          let _ ← cmd .proxy
          pure ()
      | .error _ => pure ()
      let _ ← cmd .closeTarget
      let _ ← cmd .closeSocket
      let _ ← cmd (.unregister vmID session)
      return ()

/-- `proxySerialConsole`. -/
def proxySerialConsole (r : Request) (apiKey : String) : M Unit := do
  let _ ← orThrow (cmd (.openSerial r.vmID)) id
  serve r.vmID apiKey "text" (return .ok ())

/-- `proxyRDPConsole`. -/
def proxyRDPConsole (cfg : Config) (r : Request) (apiKey : String) : M Unit := do
  let guacdAddr := trimSpace cfg.guacdAddress
  if guacdAddr = "" then
    .throw (.api "rdp_console_unavailable"
      "rdp console requires daemon.console.guacd_address to be configured")
  else do
    let machine ← orThrow (cmd (.getVM r.vmID)) id
    if ¬ machine.running then
      .throw (.api "vm_not_running" "vm must be running to open an rdp console")
    else if machine.ip = "" then
      .throw (.api "console_unavailable"
        "vm has no ip address yet; wait for the guest to acquire its lease")
    else do
      let _ ← orThrow (cmd (.dial guacdAddr))
        fun _ => .api "console_unreachable" "failed to reach guacd"
      let width := (Go.atoi r.width).getD 0
      let height := (Go.atoi r.height).getD 0
      match ← cmd (.guacdHandshake machine.ip width height) with
      | .error _ => do
          let _ ← cmd .closeTarget
          .throw (.api "console_unreachable" "guacd handshake failed")
      | .ok _ => serve r.vmID apiKey "guacamole" (cmd .writeReady)

/-- `ProxyConsole` from the ticket on. -/
def openConsole (cfg : Config) (r : Request) : M Unit := do
  if r.ticket = "" then .throw (.api "unauthorized" "missing console ticket")
  else do
    let intent ← Prog.ofExcept r.consoleIntent
    let apiKey ← orThrow (cmd (.consumeTicket r.ticket r.vmID intent)) sanitizeConsoleTicketError
    match intent with
    | .serial => proxySerialConsole r apiKey
    | .rdp => proxyRDPConsole cfg r apiKey
    | .vnc => do
        let (host, port) ← orThrow (cmd (.consoleEndpoint r.vmID)) id
        let _ ← orThrow (cmd (.dial (joinHostPort host port)))
          fun _ => .api "console_unreachable" "failed to reach vm console"
        serve r.vmID apiKey "binary" (return .ok ())

/-- `ProxyConsole`. -/
def proxyConsole (cfg : Config) (r : Request) : M Unit := do
  if ¬ cfg.enabled then
    .throw (.api "service_unavailable" "console subsystem is not enabled on this daemon")
  else if cfg.tlsEnabled ∧ ¬ r.usedTLS then
    .throw (.api "mixed_content_blocked" "console websocket requires wss when TLS is enabled")
  else if 0 < cfg.maxConcurrentSessions then do
    let count : Nat ← cmd .sessionCount
    if cfg.maxConcurrentSessions ≤ count then
      .throw (.api "console_session_limit_reached" "maximum concurrent console sessions reached")
    else openConsole cfg r
  else openConsole cfg r

/-! ### The attempts of one daemon -/

/-- What an attempt has been answered. -/
structure View where
  /-- The count it has read. -/
  counted : Option Nat := none
  upgraded : Bool := false
  /-- The session it has registered. -/
  entered : Option (String × Nat) := none
  /-- It has taken the session out again. -/
  left : Bool := false
  deriving DecidableEq, Repr

/-- What one answer adds. -/
def View.add (v : View) : (c : Cmd) → c.Resp → View
  | .sessionCount, (n : Nat) => { v with counted := some n }
  | .upgrade _, (r : Except Err Unit) => { v with upgraded := r.isOk }
  | .register vmID _, (session : Nat) => { v with entered := some (vmID, session) }
  | .unregister _ _, _ => { v with left := true }
  | _, _ => v

abbrev Log := Prog.Log Cmd Cmd.Resp

def Log.view (log : Log) : View := Prog.Log.account View.add {} log

abbrev Sys := Pool Request Cmd Cmd.Resp Err Unit Registry

abbrev Attempt := Thread Request Cmd Cmd.Resp Err Unit

def Attempt.view (t : Attempt) : View := Log.view t.log

/-- A connection attempt begins, or the attempt at this place goes on. -/
inductive Label
  | attempt (r : Request)
  | step (i : Nat) (x : Choice)
  deriving DecidableEq, Repr

namespace Sys

def init : Sys := { world := {} }

def Label.pool : Label → PoolLabel Request Choice Empty
  | .attempt r => .call r
  | .step i x => .step i x

def step (cfg : Config) (s : Sys) (l : Label) : Option Sys :=
  Pool.step (proxyConsole cfg) exec (fun e _ => e.elim) s (Label.pool l)

/-- The sessions being served: the connection is upgraded, and what is deferred has not run
to its end. -/
def served (s : Sys) : Nat := s.threads.countP fun t => (Attempt.view t).upgraded && !(Attempt.view t).left

end Sys

end Sessions

end VMSmith
