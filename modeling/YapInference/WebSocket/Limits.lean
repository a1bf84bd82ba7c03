import YapInference.Config

/-!
# Rate limiting

`src/handlers/limits.py` and `src/handlers/websocket/limits.py`: a sliding window over
the times of accepted events, oldest first.
-/

namespace YapInference

/-- `RateLimitError`. -/
structure RateLimitError where
  retryIn : ℚ
  limit : Int
  windowSeconds : ℚ
  deriving DecidableEq

/-- Its constructor, which raises every argument to zero. -/
def RateLimitError.create (retryIn : ℚ) (limit : Int) (windowSeconds : ℚ) : RateLimitError where
  retryIn := max 0 retryIn
  limit := max 0 limit
  windowSeconds := max 0 windowSeconds

/-- `SlidingWindowRateLimiter`. -/
structure SlidingWindowRateLimiter where
  limit : Int
  windowSeconds : ℚ
  events : List ℚ
  deriving DecidableEq

namespace SlidingWindowRateLimiter

/-- The constructor. -/
def create (limit : Int) (windowSeconds : ℚ) : SlidingWindowRateLimiter where
  limit := max 0 limit
  windowSeconds := max 0 windowSeconds
  events := []

/-- `_enabled`. -/
def enabled (l : SlidingWindowRateLimiter) : Bool := decide (0 < l.limit) && decide (0 < l.windowSeconds)

/-- `consume` at the clock reading `now`; the flag is false when it raises
`RateLimitError`. Expired events are dropped either way. -/
def consume (l : SlidingWindowRateLimiter) (now : ℚ) : SlidingWindowRateLimiter × Bool :=
  if !l.enabled then (l, true)
  else
    let cutoff := now - l.windowSeconds
    let events := l.events.dropWhile (fun t => decide (t ≤ cutoff))
    if l.limit ≤ events.length then ({ l with events := events }, false)
    else ({ l with events := events ++ [now] }, true)

/-- The `RateLimitError` of a rejected `consume`: a call fits again when the oldest event that is
left expires. -/
def rateLimitError (l : SlidingWindowRateLimiter) (now : ℚ) : Option RateLimitError :=
  let (l, accepted) := l.consume now
  if accepted then none
  else
    l.events.head?.map fun oldest =>
      .create (max 0 (oldest + l.windowSeconds - now)) l.limit l.windowSeconds

end SlidingWindowRateLimiter

end YapInference
