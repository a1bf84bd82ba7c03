import YapInference.Lib.Value
import YapInference.Tokens

/-!
# Authentication

`src/handlers/websocket/auth.py`. An HTTP request and a WebSocket handshake are checked against
the same store of recent failures, kept by client host. Neither function suspends, so an attempt
is one step; it reads the clock once to look and, when it fails, once more to record.
-/

namespace YapInference

open Py

/-- `AuthRuntimeConfig`. -/
structure AuthRuntimeConfig where
  textApiKey : Option Text
  allowedOrigins : List Text
  rateLimitWindowSeconds : ℚ
  maxAuthFailuresPerWindow : Int

/-- `_AUTH_FAILURES`: the times of a client's failures, oldest first. -/
abbrev AuthFailures := Dict Text (List ℚ)

/-! ## Keys and origins -/

/-- `_extract_bearer_key`. -/
def extractBearerKey (lower : Lower) (value : Option Text) : Option Text :=
  let value := value.getD []
  if value.isEmpty then none
  else
    let bearer := "bearer ".toList
    let normalized := strip value
    if normalized.length ≤ bearer.length ∨ lower (normalized.take bearer.length) ≠ bearer then none
    else
      let token := strip (normalized.drop bearer.length)
      if token.isEmpty then none else some token

/-- `_select_api_key`. -/
def selectApiKey (candidates : List (Option Text)) : Option Text :=
  candidates.findSome? fun candidate => candidate.filter fun key => !key.isEmpty

/-- `hmac.compare_digest`, which takes text only if all of it is ASCII. -/
def compareDigest (a b : Text) : Except Exc Bool :=
  if (a ++ b).all (fun c => c.toNat < 128) then .ok (a == b)
  else
    .error (.typeError "comparing strings with non-ASCII characters is not supported".toList)

/-- `validate_api_key`. -/
def validateApiKey (providedKey : Text) (configuredApiKey : Option Text) : Except Exc Bool :=
  match configuredApiKey with
  | none | some [] => .ok false
  | some configured => compareDigest providedKey configured

/-- `_validate_candidate`: the key if it is valid, else the error code. -/
def validateCandidate (config : AuthRuntimeConfig) (providedKey : Option Text) :
    Except Exc (Except Text Text) :=
  match providedKey with
  | none | some [] => .ok (.error "missing".toList)
  | some key =>
      match validateApiKey key config.textApiKey with
      | .error e => .error e
      | .ok valid => .ok (if valid then .ok key else .error "invalid".toList)

/-- `_is_origin_allowed`. -/
def isOriginAllowed (origin : Option Text) (allowedOrigins : List Text) : Bool :=
  match origin with
  | none => true
  | some origin => allowedOrigins.isEmpty || allowedOrigins.contains origin

/-- `_client_failure_key`. -/
def clientFailureKey (clientHost : Option Text) : Text :=
  let host := clientHost.getD []
  let key := strip (if host.isEmpty then "unknown".toList else host)
  if key.isEmpty then "unknown".toList else key

/-! ## The failure store -/

/-- `_prune_failures`: the client's entry without its expired times, which is made if there was
none. -/
def pruneFailures (config : AuthRuntimeConfig) (failures : AuthFailures) (clientKey : Text)
    (now : ℚ) : AuthFailures × List ℚ :=
  let entries := (failures.get? clientKey).getD []
  let cutoff := now - config.rateLimitWindowSeconds
  let entries := entries.dropWhile fun t => decide (t ≤ cutoff)
  (failures.set clientKey entries, entries)

/-- `_is_auth_throttled`. -/
def isAuthThrottled (config : AuthRuntimeConfig) (failures : AuthFailures) (clientKey : Text)
    (now : ℚ) : AuthFailures × Bool :=
  let (failures, entries) := pruneFailures config failures clientKey now
  (failures, decide (config.maxAuthFailuresPerWindow ≤ entries.length))

/-- `_record_auth_failure`. -/
def recordAuthFailure (config : AuthRuntimeConfig) (failures : AuthFailures) (clientKey : Text)
    (now : ℚ) : AuthFailures :=
  let (failures, entries) := pruneFailures config failures clientKey now
  failures.set clientKey (entries ++ [now])

/-- `_clear_auth_failures`. -/
def clearAuthFailures (failures : AuthFailures) (clientKey : Text) : AuthFailures :=
  failures.erase clientKey

/-! ## Attempts -/

/-- How an attempt ends, as its log line tells it. -/
inductive AuthOutcome where
  | throttled
  | originRejected
  /-- With the error code of `_validate_candidate`. -/
  | keyRejected (error : Text)
  | authenticated (key : Text)
  | raised (e : Exc)
  deriving DecidableEq

/-- What `authenticate_websocket` returns or raises. -/
def AuthOutcome.websocketResult : AuthOutcome → Except Exc Bool
  | throttled | originRejected | keyRejected _ => .ok false
  | authenticated _ => .ok true
  | raised e => .error e

/-- The status and detail of the `HTTPException` of `get_api_key`. -/
def AuthOutcome.httpException : AuthOutcome → Option (Nat × Text)
  | throttled => some (429, "Too many authentication failures. Retry later.".toList)
  | keyRejected error =>
      if error = "missing".toList then
        some (401,
          "API key required. Provide via 'X-API-Key' header or 'Authorization: Bearer <key>'.".toList)
      else some (401, "Invalid API key.".toList)
  | _ => none

/-- What either function reads of a connection. -/
structure AuthRequest where
  clientHost : Option Text
  origin : Option Text
  xApiKey : Option Text
  authorization : Option Text

/-- `get_api_key`. -/
def getApiKey (lower : Lower) (config : AuthRuntimeConfig) (failures : AuthFailures)
    (request : AuthRequest) (now recordedAt : ℚ) : AuthFailures × AuthOutcome :=
  let clientKey := clientFailureKey request.clientHost
  let (failures, throttled) := isAuthThrottled config failures clientKey now
  if throttled then (failures, .throttled)
  else
    let bearerKey := extractBearerKey lower request.authorization
    match validateCandidate config (selectApiKey [request.xApiKey, bearerKey]) with
    | .error e => (failures, .raised e)
    | .ok (.ok key) => (clearAuthFailures failures clientKey, .authenticated key)
    | .ok (.error error) =>
        (recordAuthFailure config failures clientKey recordedAt, .keyRejected error)

/-- `authenticate_websocket`. -/
def authenticateWebsocket (lower : Lower) (config : AuthRuntimeConfig) (failures : AuthFailures)
    (websocket : AuthRequest) (now recordedAt : ℚ) : AuthFailures × AuthOutcome :=
  let clientKey := clientFailureKey websocket.clientHost
  let (failures, throttled) := isAuthThrottled config failures clientKey now
  if throttled then (failures, .throttled)
  else if !isOriginAllowed websocket.origin config.allowedOrigins then
    (recordAuthFailure config failures clientKey recordedAt, .originRejected)
  else
    let bearerKey := extractBearerKey lower websocket.authorization
    match validateCandidate config (selectApiKey [websocket.xApiKey, bearerKey]) with
    | .error e => (failures, .raised e)
    | .ok (.error error) =>
        (recordAuthFailure config failures clientKey recordedAt, .keyRejected error)
    | .ok (.ok key) => (clearAuthFailures failures clientKey, .authenticated key)

end YapInference
