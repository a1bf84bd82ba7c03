import YapInference.Proof.RateLimit
import YapInference.WebSocket.Auth

/-!
# Authentication throttling is rate limiting

Every client gets a limiter of its own that is fed one `consume` for each recorded failure and
starts afresh after a success. The failure store keeps the same window as that limiter, although
the two prune at different moments: the store at every attempt, the limiter only when it is fed.
Both remember the failures since the last success, and `Remembers` says all that matters of that.

So an attempt is throttled when the limiter would reject it, with one exception. A limit of zero
turns the limiter off and throttles everybody.
-/

namespace YapInference

open Py Window

/-! ## Runs of attempts -/

/-- The two functions that authenticate. -/
inductive AuthEntry where
  | http
  | websocket
  deriving DecidableEq

/-- One attempt, with its two readings of the clock. -/
structure AuthAttempt where
  entry : AuthEntry
  request : AuthRequest
  now : ℚ
  recordedAt : ℚ

/-- Attempts count by client. -/
def AuthAttempt.clientKey (a : AuthAttempt) : Text := clientFailureKey a.request.clientHost

/-- The clock readings of a run, in the order they are made. -/
def readings (attempts : List AuthAttempt) : List ℚ := attempts.flatMap fun a => [a.now, a.recordedAt]

/-- Make one attempt. -/
def attempt (lower : Lower) (config : AuthRuntimeConfig) (failures : AuthFailures)
    (a : AuthAttempt) : AuthFailures × AuthOutcome :=
  match a.entry with
  | .http => getApiKey lower config failures a.request a.now a.recordedAt
  | .websocket => authenticateWebsocket lower config failures a.request a.now a.recordedAt

/-- The store after a run. -/
def failuresAfter (lower : Lower) (config : AuthRuntimeConfig) (attempts : List AuthAttempt) :
    AuthFailures :=
  attempts.foldl (fun failures a => (attempt lower config failures a).1) []

/-- How an attempt ends after a run. -/
def outcomeAfter (lower : Lower) (config : AuthRuntimeConfig) (attempts : List AuthAttempt)
    (a : AuthAttempt) : AuthOutcome :=
  (attempt lower config (failuresAfter lower config attempts) a).2

/-- A client's recorded failures. -/
def failuresOf (failures : AuthFailures) (clientKey : Text) : List ℚ :=
  (failures.get? clientKey).getD []

/-! ## The dedicated limiter -/

/-- A limiter with the settings of the authentication. -/
def authLimiter (config : AuthRuntimeConfig) : SlidingWindowRateLimiter :=
  .create config.maxAuthFailuresPerWindow config.rateLimitWindowSeconds

/-- Feed a client's limiter how an attempt of the client ended. -/
def feedLimiter (config : AuthRuntimeConfig) (l : SlidingWindowRateLimiter) (a : AuthAttempt) :
    AuthOutcome → SlidingWindowRateLimiter
  | .originRejected | .keyRejected _ => (l.consume a.recordedAt).1
  | .authenticated _ => authLimiter config
  | .throttled | .raised _ => l

/-- The limiter dedicated to a client, after a run on a store. -/
def dedicatedFrom (lower : Lower) (config : AuthRuntimeConfig) (clientKey : Text) :
    AuthFailures → SlidingWindowRateLimiter → List AuthAttempt → SlidingWindowRateLimiter
  | _, l, [] => l
  | failures, l, a :: attempts =>
      let (failures', outcome) := attempt lower config failures a
      dedicatedFrom lower config clientKey failures'
        (if a.clientKey = clientKey then feedLimiter config l a outcome else l) attempts

/-- The limiter dedicated to a client, after a run. -/
def dedicatedLimiter (lower : Lower) (config : AuthRuntimeConfig) (attempts : List AuthAttempt)
    (clientKey : Text) : SlidingWindowRateLimiter :=
  dedicatedFrom lower config clientKey [] (authLimiter config) attempts

/-- **Throttling as the rate limiter does it**, in one run. -/
structure ThrottlesAsLimiter (lower : Lower) (config : AuthRuntimeConfig)
    (attempts : List AuthAttempt) : Prop where
  /-- An attempt is throttled iff the client's limiter would reject at that moment. -/
  agrees : ∀ before a after, attempts = before ++ a :: after →
    (outcomeAfter lower config before a = .throttled ↔
      ((dedicatedLimiter lower config before a.clientKey).consume a.now).2 = false)
  /-- A throttled attempt adds nobody a failure. -/
  unrecorded : ∀ before a after, attempts = before ++ a :: after →
    outcomeAfter lower config before a = .throttled → ∀ clientKey,
      failuresOf (failuresAfter lower config (before ++ [a])) clientKey
        <:+ failuresOf (failuresAfter lower config before) clientKey
  /-- An attempt ends as it would had no other client made any. -/
  isolated : ∀ before a after, attempts = before ++ a :: after →
    outcomeAfter lower config before a
      = outcomeAfter lower config (before.filter fun b => b.clientKey = a.clientKey) a

/-! ## One attempt -/

/-- How an attempt ends that is not throttled. -/
def verdict (lower : Lower) (config : AuthRuntimeConfig) (a : AuthAttempt) : AuthOutcome :=
  if a.entry = .websocket ∧ isOriginAllowed a.request.origin config.allowedOrigins = false then
    .originRejected
  else
    match validateCandidate config
        (selectApiKey [a.request.xApiKey, extractBearerKey lower a.request.authorization]) with
    | .error e => .raised e
    | .ok (.ok key) => .authenticated key
    | .ok (.error error) => .keyRejected error

theorem verdict_ne_throttled (lower : Lower) (config : AuthRuntimeConfig) (a : AuthAttempt) :
    verdict lower config a ≠ .throttled := by
  unfold verdict
  split
  · simp
  · split <;> simp

/-- What is left of a client's failures after an attempt that ended so. -/
def settle (config : AuthRuntimeConfig) (a : AuthAttempt) (entries : List ℚ) :
    AuthOutcome → List ℚ
  | .throttled | .raised _ => prune config.rateLimitWindowSeconds a.now entries
  | .originRejected | .keyRejected _ =>
      prune config.rateLimitWindowSeconds a.recordedAt
        (prune config.rateLimitWindowSeconds a.now entries) ++ [a.recordedAt]
  | .authenticated _ => []

theorem failuresOf_set (failures : AuthFailures) (k clientKey : Text) (entries : List ℚ) :
    failuresOf (failures.set k entries) clientKey
      = if k = clientKey then entries else failuresOf failures clientKey := by
  unfold failuresOf
  split
  · subst k; simp
  · rename_i hne; rw [Dict.get?_set_ne _ _ hne]

theorem failuresOf_erase (failures : AuthFailures) (k clientKey : Text) :
    failuresOf (failures.erase k) clientKey
      = if k = clientKey then [] else failuresOf failures clientKey := by
  unfold failuresOf
  split
  · subst k; simp
  · rename_i hne; rw [Dict.get?_erase_ne _ hne]

theorem failuresOf_throttled (config : AuthRuntimeConfig) (failures : AuthFailures)
    (k clientKey : Text) (now : ℚ) :
    failuresOf (isAuthThrottled config failures k now).1 clientKey
      = if k = clientKey then prune config.rateLimitWindowSeconds now (failuresOf failures k)
        else failuresOf failures clientKey :=
  failuresOf_set failures k clientKey _

theorem failuresOf_record (config : AuthRuntimeConfig) (failures : AuthFailures)
    (k clientKey : Text) (now : ℚ) :
    failuresOf (recordAuthFailure config failures k now) clientKey
      = if k = clientKey then
          prune config.rateLimitWindowSeconds now (failuresOf failures k) ++ [now]
        else failuresOf failures clientKey := by
  unfold recordAuthFailure pruneFailures
  dsimp only
  rw [failuresOf_set, failuresOf_set]
  split <;> rfl

/-- What either function does to the store once it knows how the attempt ends. -/
def storeOutcome (config : AuthRuntimeConfig) (failures : AuthFailures) (a : AuthAttempt) :
    AuthOutcome → AuthFailures
  | .originRejected | .keyRejected _ => recordAuthFailure config failures a.clientKey a.recordedAt
  | .authenticated _ => clearAuthFailures failures a.clientKey
  | .throttled | .raised _ => failures

/-- Both functions look first, and only then at the request. -/
theorem attempt_eq (lower : Lower) (config : AuthRuntimeConfig) (failures : AuthFailures)
    (a : AuthAttempt) :
    attempt lower config failures a
      = let looked := isAuthThrottled config failures a.clientKey a.now
        if looked.2 then (looked.1, .throttled)
        else (storeOutcome config looked.1 a (verdict lower config a), verdict lower config a) := by
  obtain ⟨entry, request, now, recordedAt⟩ := a
  cases entry with
  | http =>
      simp only [attempt, getApiKey, verdict, AuthAttempt.clientKey]
      split
      · rfl
      · rw [if_neg (by simp)]
        split <;> simp only [*, storeOutcome, AuthAttempt.clientKey]
  | websocket =>
      simp only [attempt, authenticateWebsocket, verdict, AuthAttempt.clientKey]
      split
      · rfl
      · by_cases horigin : isOriginAllowed request.origin config.allowedOrigins = true
        · rw [if_neg (by simp [horigin]), if_neg (by simp [horigin])]
          split <;> simp only [*, storeOutcome, AuthAttempt.clientKey]
        · rw [if_pos (by simp [horigin]), if_pos (by simp [horigin])]
          rfl

/-- **What an attempt does**, to its own client and to the others. -/
theorem attempt_spec (lower : Lower) (config : AuthRuntimeConfig) (failures : AuthFailures)
    (a : AuthAttempt) :
    let entries := failuresOf failures a.clientKey
    let outcome := (attempt lower config failures a).2
    outcome = (if config.maxAuthFailuresPerWindow
          ≤ (prune config.rateLimitWindowSeconds a.now entries).length then .throttled
        else verdict lower config a)
      ∧ ∀ clientKey, failuresOf (attempt lower config failures a).1 clientKey
        = if a.clientKey = clientKey then settle config a entries outcome
          else failuresOf failures clientKey := by
  dsimp only
  rw [attempt_eq]
  dsimp only
  have hlooked : (isAuthThrottled config failures a.clientKey a.now).2
      = decide (config.maxAuthFailuresPerWindow ≤ (prune config.rateLimitWindowSeconds a.now
          (failuresOf failures a.clientKey)).length) := rfl
  by_cases hfull : config.maxAuthFailuresPerWindow
      ≤ (prune config.rateLimitWindowSeconds a.now (failuresOf failures a.clientKey)).length
  · rw [if_pos (by simpa [hlooked] using hfull), if_pos hfull]
    exact ⟨rfl, fun clientKey => failuresOf_throttled config failures a.clientKey clientKey a.now⟩
  · rw [if_neg (by simpa [hlooked] using hfull), if_neg hfull]
    refine ⟨rfl, fun clientKey => ?_⟩
    have hpruned := failuresOf_throttled config failures a.clientKey
    cases verdict lower config a with
    | throttled | raised _ => exact hpruned clientKey a.now
    | originRejected | keyRejected _ =>
        simp only [storeOutcome, settle]
        rw [failuresOf_record, hpruned, hpruned, if_pos rfl]
        split <;> rfl
    | authenticated _ =>
        simp only [storeOutcome, settle, clearAuthFailures]
        rw [failuresOf_erase, hpruned]
        split <;> rfl

/-- **An HTTP client is told whether it was looked at**: 429 is the answer to a throttled client, and
401 to one whose failure has been recorded. -/
theorem getApiKey_status (lower : Lower) (config : AuthRuntimeConfig) (failures : AuthFailures)
    (request : AuthRequest) (now recordedAt : ℚ) :
    let looked := isAuthThrottled config failures (clientFailureKey request.clientHost) now
    let after := getApiKey lower config failures request now recordedAt
    (after.2.httpException.map Prod.fst = some 429 ↔ looked.2 = true)
      ∧ (after.2.httpException.map Prod.fst = some 401 → after.1
        = recordAuthFailure config looked.1 (clientFailureKey request.clientHost) recordedAt) := by
  intro looked after
  have hafter : after = getApiKey lower config failures request now recordedAt := rfl
  have hrejected : ∀ error, (AuthOutcome.keyRejected error).httpException.map Prod.fst = some 401 := by
    intro error
    simp only [AuthOutcome.httpException]
    split <;> rfl
  unfold getApiKey at hafter
  dsimp only at hafter
  split at hafter
  · rename_i hthrottled
    rw [hafter]
    exact ⟨iff_of_true rfl hthrottled, fun h => absurd h (by simp [AuthOutcome.httpException])⟩
  · rename_i hlooked
    split at hafter <;> rw [hafter]
    · exact ⟨iff_of_false (by simp [AuthOutcome.httpException]) hlooked,
        fun h => absurd h (by simp [AuthOutcome.httpException])⟩
    · exact ⟨iff_of_false (by simp [AuthOutcome.httpException]) hlooked,
        fun h => absurd h (by simp [AuthOutcome.httpException])⟩
    · exact ⟨iff_of_false (by simp [hrejected]) hlooked, fun _ => rfl⟩

/-! ## The store and the limiter -/

/-- What a client's failures and the client's limiter have in common at `now`. -/
inductive Shares (config : AuthRuntimeConfig) (now : ℚ) (entries : List ℚ)
    (l : SlidingWindowRateLimiter) : Prop where
  /-- Both know the failures recorded since the last success. -/
  | on (recorded : List ℚ) (hwindow : 0 < config.rateLimitWindowSeconds)
      (remembers : Remembers config.rateLimitWindowSeconds now recorded entries)
      (tracks : l.Tracks config.maxAuthFailuresPerWindow.toNat config.rateLimitWindowSeconds now
        recorded)
  /-- Without a window, the limiter is off and nothing stays in the store. -/
  | off (hwindow : config.rateLimitWindowSeconds ≤ 0) (upTo : UpTo now entries)
      (unfed : l = authLimiter config)

theorem consume_of_disabled {l : SlidingWindowRateLimiter} (h : l.enabled = false) (now : ℚ) :
    l.consume now = (l, true) := by
  simp [SlidingWindowRateLimiter.consume, h]

/-- Zero turns the limiter off, as limit or as window. -/
theorem authLimiter_disabled {config : AuthRuntimeConfig}
    (h : config.maxAuthFailuresPerWindow ≤ 0 ∨ config.rateLimitWindowSeconds ≤ 0) :
    (authLimiter config).enabled = false := by
  rcases h with h | h <;>
    simp [authLimiter, SlidingWindowRateLimiter.create, SlidingWindowRateLimiter.enabled, h]

section Shares

variable {config : AuthRuntimeConfig} (hlimit : 0 < config.maxAuthFailuresPerWindow)

include hlimit

omit hlimit in
theorem Shares.later {now t : ℚ} {entries : List ℚ} {l : SlidingWindowRateLimiter}
    (h : Shares config now entries l) (hle : now ≤ t) : Shares config t entries l := by
  cases h with
  | on recorded hwindow remembers tracks =>
      exact .on recorded hwindow (remembers.later hle) (tracks.later hle)
  | off hwindow upTo unfed => exact .off hwindow (upTo.later hle) unfed

theorem shares_init (now : ℚ) : Shares config now [] (authLimiter config) := by
  by_cases hwindow : 0 < config.rateLimitWindowSeconds
  · exact .on [] hwindow (remembers_nil _ now)
      (SlidingWindowRateLimiter.tracks_create hlimit hwindow now)
  · exact .off (not_lt.mp hwindow) (upTo_nil now) rfl

/-- **The store is full when the limiter would reject.** -/
theorem Shares.agrees {now : ℚ} {entries : List ℚ} {l : SlidingWindowRateLimiter}
    (h : Shares config now entries l) :
    config.maxAuthFailuresPerWindow
        ≤ (prune config.rateLimitWindowSeconds now entries).length
      ↔ (l.consume now).2 = false := by
  cases h with
  | on recorded hwindow remembers tracks =>
      rw [remembers.prune_eq le_rfl tracks.upTo, tracks.answer (by omega) hwindow, admits,
        decide_eq_false_iff_not]
      omega
  | off hwindow upTo unfed =>
      rw [prune_eq_nil hwindow upTo, unfed, consume_of_disabled (authLimiter_disabled (.inr hwindow))]
      simp [hlimit]

/-- **An attempt that found room, or was throttled, leaves store and limiter in step.** -/
theorem Shares.settle {a : AuthAttempt} {entries : List ℚ} {l : SlidingWindowRateLimiter}
    (h : Shares config a.now entries l) (hle : a.now ≤ a.recordedAt) {outcome : AuthOutcome}
    (hroom : outcome ≠ .throttled → ¬ config.maxAuthFailuresPerWindow
      ≤ (prune config.rateLimitWindowSeconds a.now entries).length) :
    Shares config a.recordedAt (settle config a entries outcome)
      (feedLimiter config l a outcome) := by
  -- pruned at the first reading, and the limiter as it was
  have hpruned : Shares config a.recordedAt
      (prune config.rateLimitWindowSeconds a.now entries) l := by
    refine Shares.later ?_ hle
    cases h with
    | on recorded hwindow remembers tracks =>
        exact .on recorded hwindow (remembers.prune le_rfl) tracks
    | off hwindow upTo unfed =>
        exact .off hwindow (upTo.suffix (prune_suffix _ _ _)) unfed
  have hrecorded (hne : outcome ≠ .throttled) : Shares config a.recordedAt
      (prune config.rateLimitWindowSeconds a.recordedAt
        (prune config.rateLimitWindowSeconds a.now entries) ++ [a.recordedAt])
      (l.consume a.recordedAt).1 := by
    cases h with
    | on recorded hwindow remembers tracks =>
        have hlater := tracks.later hle
        -- the window that was not full at the first reading is no fuller at the second
        have hadmits : admits config.maxAuthFailuresPerWindow.toNat
            config.rateLimitWindowSeconds a.recordedAt recorded = true := by
          have hfirst := hroom hne
          rw [remembers.prune_eq le_rfl tracks.upTo] at hfirst
          have hlength := length_within_later (w := config.rateLimitWindowSeconds) tracks.upTo hle
          exact decide_eq_true (by omega)
        have hstep := hlater.step (by omega) hwindow
        rw [hadmits] at hstep
        exact .on (recorded ++ [a.recordedAt]) hwindow
          (((remembers.prune le_rfl).prune hle).snoc a.recordedAt) hstep
    | off hwindow upTo unfed =>
        have hgone := upTo.suffix (prune_suffix config.rateLimitWindowSeconds a.now entries)
        rw [prune_eq_nil hwindow (hgone.later hle), unfed,
          consume_of_disabled (authLimiter_disabled (.inr hwindow))]
        exact .off hwindow (upTo_nil a.recordedAt).snoc rfl
  cases outcome with
  | throttled | raised _ => exact hpruned
  | originRejected | keyRejected _ => exact hrecorded (by simp)
  | authenticated _ => exact shares_init hlimit a.recordedAt

end Shares

/-! ## Runs -/

theorem failuresAfter_snoc (lower : Lower) (config : AuthRuntimeConfig)
    (attempts : List AuthAttempt) (a : AuthAttempt) :
    failuresAfter lower config (attempts ++ [a])
      = (attempt lower config (failuresAfter lower config attempts) a).1 := by
  simp [failuresAfter]

theorem dedicatedLimiter_snoc (lower : Lower) (config : AuthRuntimeConfig)
    (attempts : List AuthAttempt) (a : AuthAttempt) (clientKey : Text) :
    dedicatedLimiter lower config (attempts ++ [a]) clientKey
      = if a.clientKey = clientKey then
          feedLimiter config (dedicatedLimiter lower config attempts clientKey) a
            (outcomeAfter lower config attempts a)
        else dedicatedLimiter lower config attempts clientKey := by
  unfold dedicatedLimiter outcomeAfter failuresAfter
  generalize ([] : AuthFailures) = failures
  generalize authLimiter config = l
  induction attempts generalizing failures l with
  | nil => rfl
  | cons b attempts ih => exact ih _ _

/-- How an attempt ends depends on the failures of its own client only. -/
theorem outcome_congr (lower : Lower) (config : AuthRuntimeConfig) {failures failures' : AuthFailures}
    {a : AuthAttempt} (h : failuresOf failures a.clientKey = failuresOf failures' a.clientKey) :
    (attempt lower config failures a).2 = (attempt lower config failures' a).2 := by
  rw [(attempt_spec lower config failures a).1, (attempt_spec lower config failures' a).1, h]

/-- **Other clients' attempts leave no trace in a client's failures.** -/
theorem failuresOf_filter (lower : Lower) (config : AuthRuntimeConfig)
    (attempts : List AuthAttempt) (clientKey : Text) :
    failuresOf (failuresAfter lower config attempts) clientKey
      = failuresOf (failuresAfter lower config
          (attempts.filter fun b => b.clientKey = clientKey)) clientKey := by
  induction attempts using List.reverseRecOn with
  | nil => rfl
  | append_singleton attempts a ih =>
      rw [List.filter_append, failuresAfter_snoc, (attempt_spec _ _ _ _).2]
      by_cases hclient : a.clientKey = clientKey
      · subst hclient
        rw [List.filter_cons_of_pos (by simp), List.filter_nil, failuresAfter_snoc,
          (attempt_spec _ _ _ _).2, if_pos rfl, if_pos rfl, outcome_congr lower config ih, ih]
      · rw [if_neg hclient, List.filter_cons_of_neg (by simpa using hclient), List.filter_nil,
          List.append_nil]
        exact ih

/-- **Store and limiter stay in step**, for every client, in every run. -/
theorem shares_run (lower : Lower) {config : AuthRuntimeConfig}
    (hlimit : 0 < config.maxAuthFailuresPerWindow) {attempts : List AuthAttempt} {t : ℚ}
    (hordered : (readings attempts ++ [t]).Pairwise (· ≤ ·)) (clientKey : Text) :
    Shares config t (failuresOf (failuresAfter lower config attempts) clientKey)
      (dedicatedLimiter lower config attempts clientKey) := by
  induction attempts using List.reverseRecOn generalizing t with
  | nil => exact shares_init hlimit t
  | append_singleton attempts a ih =>
      have hreadings : readings (attempts ++ [a]) ++ [t]
          = (readings attempts ++ [a.now]) ++ [a.recordedAt, t] := by simp [readings]
      rw [hreadings] at hordered
      obtain ⟨hbefore, hlast, hcross⟩ := List.pairwise_append.mp hordered
      have hle : a.now ≤ a.recordedAt := hcross _ (by simp) _ (by simp)
      have hlater : a.recordedAt ≤ t := (List.pairwise_cons.mp hlast).1 t (by simp)
      have h := ih hbefore
      rw [failuresAfter_snoc, (attempt_spec _ _ _ _).2, dedicatedLimiter_snoc]
      refine Shares.later ?_ hlater
      by_cases hclient : a.clientKey = clientKey
      · subst hclient
        rw [if_pos rfl, if_pos rfl]
        refine h.settle hlimit hle fun hne hfull => hne ?_
        rw [(attempt_spec _ _ _ _).1, if_pos hfull]
      · rw [if_neg hclient, if_neg hclient]
        exact h.later hle

/-- **Throttling agrees with the rate limiter exactly when the limit is positive.** For every
configuration, and every run of attempts at non-decreasing times that is not empty. -/
theorem throttlesAsLimiter_iff (lower : Lower) (config : AuthRuntimeConfig)
    (attempts : List AuthAttempt) (hordered : (readings attempts).Pairwise (· ≤ ·)) :
    ThrottlesAsLimiter lower config attempts
      ↔ 0 < config.maxAuthFailuresPerWindow ∨ attempts = [] := by
  constructor
  · intro h
    cases attempts with
    | nil => exact .inr rfl
    | cons a rest =>
        refine .inl (not_le.mp fun hlimit => ?_)
        -- nothing is recorded yet, but no number of failures is below the limit
        have hthrottled : outcomeAfter lower config [] a = .throttled := by
          rw [outcomeAfter, (attempt_spec _ _ _ _).1, if_pos (hlimit.trans (by simp))]
        have hrejects := (h.agrees [] a rest rfl).mp hthrottled
        rw [dedicatedLimiter, dedicatedFrom,
          consume_of_disabled (authLimiter_disabled (.inl hlimit))] at hrejects
        exact absurd hrejects (by simp)
  · intro h
    rcases h with hlimit | rfl
    · refine ⟨?_, ?_, ?_⟩
      · intro before a after heq
        obtain rfl := heq
        have hbefore : (readings before ++ [a.now]).Pairwise (· ≤ ·) := by
          refine hordered.sublist ?_
          simp [readings]
        rw [← (shares_run lower hlimit hbefore a.clientKey).agrees hlimit, outcomeAfter,
          (attempt_spec _ _ _ _).1]
        split
        · simp [*]
        · simp [*, verdict_ne_throttled]
      · intro before a after _ hthrottled clientKey
        rw [outcomeAfter] at hthrottled
        rw [failuresAfter_snoc, (attempt_spec _ _ _ _).2, hthrottled]
        split
        · rename_i hclient
          exact hclient ▸ prune_suffix _ _ _
        · exact List.suffix_rfl
      · intro before a after _
        exact outcome_congr lower config (failuresOf_filter lower config before a.clientKey)
    · exact ⟨by simp, by simp, by simp⟩

/-- The settings of a deployment that limits failures to `limit` a minute. -/
def sampleAuthConfig (limit : Int) : AuthRuntimeConfig where
  textApiKey := some "secret".toList
  allowedOrigins := []
  rateLimitWindowSeconds := 60
  maxAuthFailuresPerWindow := limit

/-- A handshake of one client with this key. -/
def sampleAttempt (key : String) (now : ℚ) : AuthAttempt where
  entry := .websocket
  request := {
    clientHost := some "10.0.0.1".toList
    origin := none
    xApiKey := some key.toList
    authorization := none }
  now := now
  recordedAt := now

/-- A wrong key, and the right one too soon after it. -/
theorem throttlesAsLimiter_iff_tooSoon :
    ThrottlesAsLimiter id (sampleAuthConfig 1) [sampleAttempt "guess" 0, sampleAttempt "secret" 1] :=
  (throttlesAsLimiter_iff id (sampleAuthConfig 1) _ (by decide +kernel)).mpr (.inl (by decide))

/-- **With throttling switched off, the first attempt is throttled**, although it has the right
key; the limiter lets it through. -/
theorem throttled_when_disabled :
    outcomeAfter id (sampleAuthConfig 0) [] (sampleAttempt "secret" 0) = .throttled
      ∧ ((dedicatedLimiter id (sampleAuthConfig 0) []
          (sampleAttempt "secret" 0).clientKey).consume 0).2 = true
      ∧ ¬ ThrottlesAsLimiter id (sampleAuthConfig 0) [sampleAttempt "secret" 0] := by
  refine ⟨by decide +kernel, by decide +kernel, fun h => ?_⟩
  have hagrees := h.agrees [] (sampleAttempt "secret" 0) [] rfl
  revert hagrees
  decide +kernel

end YapInference
