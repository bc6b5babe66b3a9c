/-
# The rate limiter

A fixed window per client key. The table of windows is bounded: at
`maxTracked` entries the expired ones are purged, and if that frees nothing
the call is shed. A `Mutex` makes every call one step, and nothing under it
can panic in a release build, where `hits += 1` wraps around at 2³².

`Instant` and `Duration` are nanoseconds of a clock that starts at zero;
`duration_since` an instant that lies ahead is zero, as subtraction of natural
numbers has it.

Key definitions: `Window`, `RateLimiter`, `RateLimiter.check`, `clientKey`.
-/
import HarnessRegistry.Auth

namespace HarnessRegistry

abbrev Instant := ℕ
abbrev Duration := ℕ

def maxTracked : ℕ := 20000

structure Window where
  started : Instant
  hits : UInt32

structure RateLimiter where
  limit : UInt32
  window : Duration
  seen : Std.HashMap String Window

namespace RateLimiter

def new (limit : UInt32) (window : Duration) : RateLimiter := ⟨limit, window, ∅⟩

/-- `now.duration_since(w.started) < self.window`. -/
def live (l : RateLimiter) (now : Instant) (w : Window) : Bool := now - w.started < l.window

/-- `seen.retain(|_, w| …)`. -/
def retain (l : RateLimiter) (now : Instant) : RateLimiter :=
  { l with seen := l.seen.filter fun _ w => l.live now w }

/-- The arm of an absent or expired window. -/
def reopen (l : RateLimiter) (now : Instant) (key : String) : Bool × RateLimiter :=
  (true, { l with seen := l.seen.insert key ⟨now, 1⟩ })

/-- The `match` of `check`: count the hit, or open a window. -/
def hit (l : RateLimiter) (now : Instant) (key : String) : Bool × RateLimiter :=
  match l.seen[key]? with
  | some w =>
    if l.live now w then
      (decide (w.hits + 1 ≤ l.limit), { l with seen := l.seen.insert key ⟨w.started, w.hits + 1⟩ })
    else l.reopen now key
  | none => l.reopen now key

/-- Record a hit for `key`. `false` means the caller is over its limit, or shed. -/
def check (l : RateLimiter) (now : Instant) (key : String) : Bool × RateLimiter :=
  if l.seen.size ≥ maxTracked then
    if (l.retain now).seen.size ≥ maxTracked then (false, l.retain now)
    else (l.retain now).hit now key
  else l.hit now key

end RateLimiter

/-- `chain.split(',').next()`. -/
def firstOfChain (chain : String) : String := String.ofList (chain.toList.takeWhile (· != ','))

/-- Identify the client for rate limiting; `socket` is the text of the peer's
address, which no handler passes. -/
def clientKey (headers : HeaderMap) (socket : Option String) : String :=
  let usable (name : String) (f : String → String) : Option String := do
    let v ← headers name
    let s ← v.toStr
    if (trim (f s)).isEmpty then none else some (trim (f s))
  match usable "cf-connecting-ip" id with
  | some ip => ip
  | none => match usable "x-forwarded-for" firstOfChain with
    | some first => first
    | none => socket.getD "unknown"

end HarnessRegistry
