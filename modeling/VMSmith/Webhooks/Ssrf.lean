/-
The address check of a delivery, and the client that it is posted with.

`validateTarget` resolves the host once and checks every answer.  The client is made for
one delivery: it refuses to connect to anything but the addresses that were checked, unless
the host is in the list of allowed ones, when the addresses were not looked at and the client
is the library's plain one.

Below it stands what the library does with such a client, of which the program's text only
shows the dial function: up to ten requests for one post, each to where the last answer
redirected, each over a connection dialed for the purpose or left over from an earlier
request to the same host.  An empty host is the local system.  No proxy is configured.

What names resolve to, which connections come about and what is answered over them is the
world's.  Host names are looked up as they are written.
-/
import VMSmith.Lib.GoStrings
import VMSmith.Lib.IPAddr
import VMSmith.Lib.Prog

namespace VMSmith

open Net

/-- `url.URL`, as far as a delivery reads it. -/
structure Url where
  scheme : String
  /-- Name or address, with its brackets and its port. -/
  host : String
  deriving DecidableEq, Repr

/-- `Hostname`: without a port, and without brackets. -/
def Url.hostname (u : Url) : String :=
  let cs := u.host.toList
  let port := (cs.reverse.takeWhile (· ≠ ':')).reverse
  let name := if ':' ∈ cs ∧ port.all Char.isDigit then cs.take (cs.length - port.length - 1) else cs
  String.ofList <|
    if name.head? = some '[' ∧ name.getLast? = some ']' then (name.drop 1).dropLast else name

/-- Where an answer says the request should go instead. -/
inductive Location where
  | absent
  | malformed (message : String)
  | target (u : Url)
  deriving DecidableEq, Repr

inductive PostCmd where
  /-- Look a host up. -/
  | lookupIP (host : String)
  /-- Is a connection to this host left over? -/
  | idleConn (host : String)
  /-- Connect to an address that stands for a host. -/
  | connect (host : String) (ip : IP)
  /-- Send a request and read the answer. -/
  | roundTrip (u : Url)
  /-- Wait before a retry; the worker may be stopped meanwhile. -/
  | backoff
  deriving DecidableEq, Repr

abbrev PostReply : PostCmd → Type
  | .lookupIP _ => Except String (List IP)
  | .idleConn _ => Bool
  | .connect _ _ => Except String Unit
  | .roundTrip _ => Except String (Nat × Location)
  | .backoff => Bool

abbrev PostProg := Prog PostCmd PostReply String

def errSSRFBlocked : String := "webhook target blocked by SSRF policy"

def errInvalidScheme : String := "webhook URL must use http or https"

/-- `defaultDenyCIDRs`. -/
def defaultDenyCIDRs : List IPNet :=
  ["127.0.0.0/8", "::1/128", "169.254.0.0/16", "fe80::/10", "192.168.100.0/24"].filterMap parseIPNet

/-- What the checks of `validateTarget` say about one address. -/
def denied (ip : IP) : Bool :=
  ip.isUnspecified || ip.isMulticast || defaultDenyCIDRs.any (·.contains ip)

/-- The fields of the webhooks' `Manager` that a delivery reads. -/
structure HookClient where
  /-- `url.Parse`. -/
  parse : String → Except String Url
  allowedHosts : List String
  /-- The length of `backoff`. -/
  retries : Nat := 5

/-- The host is in the list of allowed ones. -/
def HookClient.allows (m : HookClient) (host : String) : Bool :=
  m.allowedHosts.any fun h => Go.equalFold (Go.trimSpace h) host

/-- What a URL must be before its host is looked at. -/
def HookClient.target (m : HookClient) (rawURL : String) : Except String Url := do
  let u ← m.parse (Go.trimSpace rawURL)
  if u.scheme ≠ "http" ∧ u.scheme ≠ "https" then throw errInvalidScheme
  else if u.host = "" then throw "webhook URL is missing host"
  else pure u

def lookupIP (host : String) : PostProg (Except String (List IP)) := Prog.perform (PostCmd.lookupIP host)

/-- `validateTarget`. -/
def HookClient.validateTarget (m : HookClient) (rawURL : String) : PostProg (Url × List IP) := do
  let u ← Prog.ofExcept (m.target rawURL)
  if m.allows u.hostname then pure (u, [])
  else
    match ← lookupIP u.hostname with
    | .error _ => .throw "webhook target host did not resolve"
    | .ok [] => .throw "webhook target host did not resolve"
    | .ok ips => if ips.any denied then .throw errSSRFBlocked else pure (u, ips)

/-- The client for one delivery: the library's plain one, or one that connects to some
addresses only. -/
inductive Client where
  | plain
  | pinned (allowed : List IP)
  deriving DecidableEq, Repr

namespace Client

def connect (host : String) (ip : IP) : PostProg Unit :=
  Prog.perform (.connect host ip) >>= Prog.ofExcept

/-- Try addresses in turn until a connection comes about. -/
def connectAny (host message : String) : List IP → PostProg Unit
  | [] => .throw message
  | ip :: ips => do
      match ← (connect host ip.normal).attempt with
      | .ok _ => pure ()
      | .error message => connectAny host message ips

/-- How a connection for a host is made. -/
def dial (host : String) : Client → PostProg Unit
  | plain =>
      if host = "" then connect host (.v4 0)
      else do
        let found ← lookupIP host
        let ips ← Prog.ofExcept found
        connectAny host "no suitable address found" ips
  | pinned allowed =>
      match parseIP host with
      | some ip => if ip.normal ∈ allowed then connect host ip.normal else .throw errSSRFBlocked
      | none => do
          let found ← lookupIP host
          let resolved ← Prog.ofExcept found
          match resolved.find? fun candidate => candidate.normal ∈ allowed with
          | some candidate => connect host candidate.normal
          | none => .throw errSSRFBlocked

/-- Have a connection to a URL's host. -/
def reach (c : Client) (u : Url) : PostProg Unit := do
  if ← Prog.perform (.idleConn u.host) then pure () else c.dial u.hostname

/-- The statuses of the answers that redirect. -/
def redirects (status : Nat) : Bool := status ∈ [301, 302, 303, 307, 308]

/-- A request, and those its answers redirect it to; so many may still be made. -/
def follow (c : Client) : Nat → Url → PostProg Nat
  | 0, _ => .throw "stopped after 10 redirects"
  | left + 1, u =>
      if u.scheme ≠ "http" ∧ u.scheme ≠ "https" then .throw "unsupported protocol scheme"
      else if u.host = "" then .throw "http: no Host in request URL"
      else do
        c.reach u
        let answer ← Prog.perform (.roundTrip u)
        let (status, location) ← Prog.ofExcept answer
        if redirects status then
          match location with
          | .absent => pure status
          | .malformed message => .throw message
          | .target next => follow c left next
        else pure status

/-- `send`: the status of the last answer. -/
def send (c : Client) (u : Url) : PostProg Nat := c.follow 10 u

end Client

/-- The status of a good answer, or what is recorded of any other. -/
def verdict : Except String Nat → Except (String × Nat) Nat
  | .error message => .error (message, 0)
  | .ok status =>
      if 200 ≤ status ∧ status < 300 then .ok status else .error ("HTTP " ++ toString status, status)

/-- A lookup may answer a host with this address: an address is answered with itself, and
the empty name with nothing. -/
def MayResolve (host : String) (ip : IP) : Prop :=
  host ≠ "" ∧ ∀ literal, literalIP host = some literal → ip = literal

/-- Addresses that only an allowed host may be reached at. -/
def guarded (subnet : IPNet) (ip : IP) : Bool :=
  ip.isLoopback || ip.isLinkLocalUnicast || ip.isUnspecified || ip.isMulticast || subnet.contains ip

/-- Every lookup is answered anew, with whatever the host may resolve to; anything may come
of the other commands.  In order is what the check of addresses is there for. -/
def HookClient.network (m : HookClient) (subnet : IPNet) : Prog.Sem PostCmd PostReply Unit where
  allowed := fun _ c => ∀ host ip, c = .connect host ip → m.allows host = true ∨ guarded subnet ip = false
  next := fun _ c r _ =>
    match c, r with
    | .lookupIP host, .ok ips => ∀ ip ∈ ips, MayResolve host ip
    | _, _ => True

end VMSmith
