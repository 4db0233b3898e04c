/-
What the request logger writes of a request.

Its query and its body are written with the secrets taken out; `Proofs/QueryLog` and
`Proofs/BodyLog` say how far that goes.
-/
import VMSmith.Lib.Query
import VMSmith.Lib.JsonValue

namespace VMSmith.Api

open Go

/-- What the middleware looks at in an `http.Request`. -/
structure Request where
  method : Bytes
  /-- `URL.Path`, decoded. -/
  path : Bytes
  rawQuery : Bytes
  /-- The length of the body as it was announced, `-1` when it was not. -/
  contentLength : Int
  body : Bytes
  remoteAddr : Bytes

/-- What a `responseRecorder` has seen of the answer, and how long it took. -/
structure Response where
  status : Nat
  size : Nat
  durationMs : Nat

inductive LogLevel
  | info | warn | error
  deriving DecidableEq, Repr

structure LogEntry where
  level : LogLevel
  source : String
  message : Bytes
  fields : List (String × Bytes)
  deriving DecidableEq, Repr

/-! ### The query -/

/-- `sensitiveKeys`. -/
def sensitiveQueryKeys : List Bytes := [ascii "ticket", ascii "api_key"]

/-- One part of the query, as `redactSensitiveRawQuery` leaves it. -/
def redactQueryPart (part : Bytes) : Bytes :=
  if part = [] then part
  else
    let key := Query.keyText part
    let decodedKey := (Query.queryUnescape key).getD key
    if decodedKey ∈ sensitiveQueryKeys then key ++ ascii "=REDACTED" else part

/-- `redactSensitiveRawQuery`. -/
def redactSensitiveRawQuery (raw : Bytes) : Bytes :=
  if raw = [] then [] else Query.join 0x26 ((Query.split 0x26 raw).map redactQueryPart)

/-! ### The body -/

/-- `unicode.ToLower` as far as a comparison with ASCII can tell: two letters outside of it
have lower-case forms inside. -/
def lowerRune (c : Char) : Char :=
  if c = '\u0130' then 'i' else if c = '\u212A' then 'k' else c.toLower

/-- `isSensitiveBodyKey`. -/
def isSensitiveBodyKey (key : List Char) : Bool :=
  String.ofList (key.map lowerRune) ∈ ["admin_password", "api_key", "password", "secret",
    "ssh_pub_key", "ticket", "vnc_password"]

mutual

/-- `redactSensitiveJSONValue`. -/
def redactSensitiveJSONValue : Json.Value → Json.Value
  | .array items => .array (redactItems items)
  | .object members => .object (redactMembers members)
  | value => value

def redactItems : Json.Values → Json.Values
  | .nil => .nil
  | .cons child rest => .cons (redactSensitiveJSONValue child) (redactItems rest)

def redactMembers : Json.Pairs → Json.Pairs
  | .nil => .nil
  | .cons key child rest =>
      .cons key
        (if isSensitiveBodyKey key then .string "REDACTED".toList
         else redactSensitiveJSONValue child)
        (redactMembers rest)

end

section

/- The text `json.Marshal` has for a number that is written so. -/
variable (formatNumber : Bytes → Bytes)

/-- `redactSensitiveBody`.  Marshalling what was decoded does not fail. -/
def redactSensitiveBody (raw : Bytes) : Bytes :=
  if raw = [] then []
  else
    match Json.unmarshal raw with
    | none => raw
    | some decoded => (redactSensitiveJSONValue decoded).marshal formatNumber

/-! ### The entry -/

/- `http.StatusText`. -/
variable (statusText : Nat → Bytes)

/-- Whether the logger takes a copy of the body. -/
def Request.bodyCaptured (r : Request) : Bool :=
  r.method ∈ [ascii "POST", ascii "PUT", ascii "PATCH"] &&
    (0 < r.contentLength && r.contentLength < 4096)

/-- `bodySnippet`. -/
def bodySnippet (r : Request) : Bytes :=
  if r.bodyCaptured then redactSensitiveBody formatNumber r.body else []

/-- `itoa`. -/
def itoa (n : Nat) : Bytes := ascii (toString n)

/-- `requestLogger`: the entry for a request that was answered so. -/
def requestLogger (r : Request) (answer : Response) : Option LogEntry :=
  if r.path = ascii "/api/v1/logs" ∧ r.method = ascii "GET" then none
  else
    some {
      level :=
        if 500 ≤ answer.status then .error else if 400 ≤ answer.status then .warn else .info
      source := "api"
      message := r.method ++ 0x20 :: r.path
      fields :=
        [("method", r.method), ("path", r.path), ("status", statusText answer.status),
          ("status_code", itoa answer.status), ("duration_ms", itoa answer.durationMs),
          ("bytes", itoa answer.size), ("remote", r.remoteAddr)]
        ++ (if r.rawQuery = [] then [] else [("query", redactSensitiveRawQuery r.rawQuery)])
        ++ (if bodySnippet formatNumber r = [] then []
            else [("body", bodySnippet formatNumber r)]) }

/-- The text of a field of the entry, where there is one. -/
def loggedField (name : String) (entry : Option LogEntry) : Option Bytes :=
  entry.bind fun e => e.fields.lookup name

end

end VMSmith.Api
