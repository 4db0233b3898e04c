/-
The limiter of request rates.

Every client has a bucket of tokens that fills at a rate up to a burst, and a request
takes one token.  Clock readings are in nanoseconds; what is computed from them in
floating point is exact here, and durations have no bound.
-/
import VMSmith.Lib.GoStrings
import Mathlib.Algebra.Order.Floor.Ring
import Mathlib.Data.Rat.Floor

namespace VMSmith.Api

/-- `tokenBucket`. -/
structure TokenBucket where
  tokens : ℚ
  /-- When `tokens` was last brought up to date. -/
  last : ℤ

/-- `ipRateLimiter`, as `newIPRateLimiter` lets it be. -/
structure IPRateLimiter where
  clients : String → Option TokenBucket
  /-- Tokens a second. -/
  rate : ℚ
  burst : ℤ
  rate_pos : 0 < rate
  burst_pos : 0 < burst

/-- `newIPRateLimiter`: no limiter where there is no limit. -/
def newIPRateLimiter (rate : ℚ) (burst : ℤ) : Option IPRateLimiter :=
  if h : rate ≤ 0 ∨ burst ≤ 0 then none
  else some ⟨fun _ => none, rate, burst, by
    rw [not_or] at h; exact not_le.mp h.1, by rw [not_or] at h; exact not_le.mp h.2⟩

/-- `time.Second`. -/
def second : ℤ := 1000000000

/-- `Duration.Seconds`. -/
def durationSeconds (d : ℤ) : ℚ := (d : ℚ) / (second : ℚ)

namespace IPRateLimiter

def setClient (l : IPRateLimiter) (ip : String) (bucket : TokenBucket) : IPRateLimiter :=
  { l with clients := fun other => if other = ip then some bucket else l.clients other }

/-- The bucket brought up to date. -/
def refill (l : IPRateLimiter) (bucket : TokenBucket) (now : ℤ) : TokenBucket :=
  let elapsed := durationSeconds (now - bucket.last)
  if elapsed > 0 then ⟨min (l.burst : ℚ) (bucket.tokens + elapsed * l.rate), now⟩ else bucket

/-- `allow`, of a limiter that is not nil: whether the request may pass, and after how many
nanoseconds it should be tried again. -/
def allow (l : IPRateLimiter) (ip : String) (now : ℤ) : (Bool × ℤ) × IPRateLimiter :=
  if ip = "" then ((true, 0), l)
  else
    match l.clients ip with
    | none => ((true, 0), l.setClient ip ⟨((l.burst - 1 : ℤ) : ℚ), now⟩)
    | some bucket =>
        let bucket := l.refill bucket now
        if bucket.tokens ≥ 1 then
          ((true, 0), l.setClient ip { bucket with tokens := bucket.tokens - 1 })
        else
          let neededSeconds := (1 - bucket.tokens) / l.rate
          let neededSeconds := if neededSeconds < 0 then 0 else neededSeconds
          ((false, ⌈neededSeconds * (second : ℚ)⌉), l.setClient ip bucket)

end IPRateLimiter

inductive RateAnswer
  /-- The request goes on to its handler. -/
  | next
  /-- 429, with the seconds of the `Retry-After` header. -/
  | tooManyRequests (retryAfter : ℤ)
  deriving DecidableEq, Repr

/-- `rateLimitMiddleware`. -/
def rateLimitMiddleware (limiter : Option IPRateLimiter) (ip : String) (now : ℤ) :
    RateAnswer × Option IPRateLimiter :=
  match limiter with
  | none => (.next, none)
  | some l =>
      let ((allowed, retryAfter), l) := l.allow ip now
      if allowed then (.next, some l)
      else
        let retryAfter := if retryAfter ≤ 0 then second else retryAfter
        (.tooManyRequests ⌈durationSeconds retryAfter⌉, some l)

/-- `clientIP`, of the two headers and the remote address; `splitHostPort` is the host that
`net.SplitHostPort` finds. -/
def clientIP (splitHostPort : String → Option String)
    (xForwardedFor xRealIP remoteAddr : String) : String :=
  let forwarded := Go.trimSpace xForwardedFor
  if forwarded ≠ "" then
    Go.trimSpace (String.ofList (forwarded.toList.takeWhile (· ≠ ',')))
  else
    let realIP := Go.trimSpace xRealIP
    if realIP ≠ "" then realIP
    else
      match splitHostPort (Go.trimSpace remoteAddr) with
      | some host => if host ≠ "" then host else Go.trimSpace remoteAddr
      | none => Go.trimSpace remoteAddr

end VMSmith.Api
