import YapInference.WebSocket.Gate
import YapInference.Lib.Outputs
import YapInference.Proof.AuthAccount
import YapInference.Proof.ServerSlots

/-!
# Who gets through the gate

A handler passes authentication in one step only, the handshake that is granted, and what was
granted there is a fact about the socket's own request. So nobody waits for a slot, holds one or is
served who did not present the configured key, however the handlers interleave.

The failures of a client since its last success are a history variable. The store remembers of it
what the window still shows (`Recalls`), which makes throttling a statement about the history: a
client is let in exactly when it has room left, and no span of the window's width holds more than
`limit` guesses.
-/

namespace YapInference

open Py Lts Window

variable {Socket : Type} [DecidableEq Socket] {deps : Deps} {config : AuthRuntimeConfig}

/-! ## Who has a key -/

/-- The request presents the configured key, from an allowed origin. -/
def Presents (lower : Lower) (config : AuthRuntimeConfig) (request : AuthRequest) : Prop :=
  isOriginAllowed request.origin config.allowedOrigins = true
    ∧ ∃ key, key ≠ [] ∧ IsAscii key ∧ config.textApiKey = some key
      ∧ selectedKey lower request = some key

theorem compareDigest_ok_true {a b : Text} :
    compareDigest a b = .ok true ↔ IsAscii a ∧ a = b := by
  have hall : (a ++ b).all (fun c => c.toNat < 128) = true ↔ IsAscii a ∧ IsAscii b := by
    rw [List.all_append, Bool.and_eq_true, isAscii_iff, isAscii_iff]
  unfold compareDigest
  split
  · rename_i hascii
    have ha := (hall.mp hascii).1
    simp [ha]
  · rename_i hascii
    refine iff_of_false (by simp) fun h => hascii (hall.mpr ⟨h.1, h.2 ▸ h.1⟩)

theorem validateApiKey_ok_true {key : Text} :
    validateApiKey key config.textApiKey = .ok true
      ↔ key ≠ [] ∧ IsAscii key ∧ config.textApiKey = some key := by
  unfold validateApiKey
  split
  · rename_i hnone
    simp [hnone]
  · rename_i hempty
    refine iff_of_false (by simp) fun h => h.1 ?_
    exact Option.some.inj (h.2.2.symm.trans hempty)
  · rename_i configured hne hconfigured
    rw [hconfigured, compareDigest_ok_true]
    constructor
    · rintro ⟨hascii, rfl⟩
      exact ⟨hne, hascii, rfl⟩
    · rintro ⟨-, hascii, heq⟩
      exact ⟨hascii, (Option.some.inj heq).symm⟩

/-- The key that is valid is the configured one. -/
theorem validateCandidate_ok {selected : Option Text} {key : Text} :
    validateCandidate config selected = .ok (.ok key)
      ↔ selected = some key ∧ key ≠ [] ∧ IsAscii key ∧ config.textApiKey = some key := by
  unfold validateCandidate
  split
  · simp
  · refine iff_of_false (by simp) fun h => h.2.1 (Option.some.inj h.1).symm
  · rename_i candidate hne
    constructor
    · intro h
      split at h
      · cases h
      · rename_i valid hvalid
        cases valid with
        | true =>
            cases h
            exact ⟨rfl, validateApiKey_ok_true.mp hvalid⟩
        | false => cases h
    · rintro ⟨heq, hkey⟩
      cases heq
      rw [validateApiKey_ok_true.mpr hkey]
      rfl

/-- **A verdict lets in whoever presents the key.** -/
theorem verdict_authenticated {lower : Lower} {a : AuthAttempt} (ha : a.entry = .websocket) :
    (∃ key, verdict lower config a = .authenticated key) ↔ Presents lower config a.request := by
  unfold verdict Presents selectedKey
  split
  · rename_i horigin
    refine iff_of_false (by simp) fun h => ?_
    exact absurd (horigin.2.symm.trans h.1) (by simp)
  · rename_i horigin
    have horigin : isOriginAllowed a.request.origin config.allowedOrigins = true := by
      cases h : isOriginAllowed a.request.origin config.allowedOrigins with
      | true => rfl
      | false => exact absurd ⟨ha, h⟩ horigin
    rw [and_iff_right horigin]
    constructor
    · rintro ⟨key, h⟩
      split at h
      · cases h
      · rename_i key' hvalid
        obtain ⟨hselected, hne, hascii, hconfigured⟩ := validateCandidate_ok.mp hvalid
        exact ⟨key', hne, hascii, hconfigured, hselected⟩
      · cases h
    · rintro ⟨key, hne, hascii, hconfigured, hselected⟩
      have hvalid := validateCandidate_ok.mpr ⟨hselected, hne, hascii, hconfigured⟩
      exact ⟨key, by rw [hvalid]⟩

/-! ## What the store recalls -/

/-- A handshake, and how it ended. -/
abbrev Knock := AuthAttempt × AuthOutcome

/-- What a handshake of the client adds to its failures. -/
def tally (recorded : List ℚ) (k : Knock) : List ℚ :=
  match k.2 with
  | .originRejected | .keyRejected _ => recorded ++ [k.1.recordedAt]
  | .authenticated _ => []
  | .throttled | .raised _ => recorded

/-- The failures of a client since its last success. -/
def failuresSince (clientKey : Text) (knocks : List Knock) : List ℚ :=
  knocks.foldl (fun recorded k =>
    if k.1.clientKey = clientKey then tally recorded k else recorded) []

theorem failuresSince_snoc (clientKey : Text) (knocks : List Knock) (k : Knock) :
    failuresSince clientKey (knocks ++ [k]) = if k.1.clientKey = clientKey then
        tally (failuresSince clientKey knocks) k
      else failuresSince clientKey knocks := by
  simp [failuresSince]

/-- Has the client room for an attempt at `now`? -/
def Room (config : AuthRuntimeConfig) (now : ℚ) (recorded : List ℚ) : Prop :=
  ((within config.rateLimitWindowSeconds now recorded).length : Int)
    < config.maxAuthFailuresPerWindow

/-- What a client's entry tells at `now` of the failures since the last success. -/
structure Recalls (config : AuthRuntimeConfig) (now : ℚ) (recorded entries : List ℚ) : Prop where
  upTo : UpTo now recorded
  /-- It has lost only expired ones. -/
  remembers : Remembers config.rateLimitWindowSeconds now recorded entries
  /-- Each was let happen. -/
  sparse : Sparse config.maxAuthFailuresPerWindow.toNat config.rateLimitWindowSeconds recorded

theorem recalls_nil (now : ℚ) : Recalls config now [] [] :=
  ⟨upTo_nil now, remembers_nil _ now, sparse_nil _ _⟩

section Recalls

variable {now : ℚ} {recorded entries : List ℚ}

theorem Recalls.later {t : ℚ} (h : Recalls config now recorded entries) (hle : now ≤ t) :
    Recalls config t recorded entries :=
  ⟨h.upTo.later hle, h.remembers.later hle, h.sparse⟩

/-- The store is full when the window is. -/
theorem Recalls.throttles (h : Recalls config now recorded entries) :
    config.maxAuthFailuresPerWindow ≤ (prune config.rateLimitWindowSeconds now entries).length
      ↔ ¬ Room config now recorded := by
  rw [h.remembers.prune_eq le_rfl h.upTo, Room, not_lt]

/-- **A handshake that was throttled, or found room, leaves the store knowing the history.** -/
theorem Recalls.settle {a : AuthAttempt} {outcome : AuthOutcome}
    (h : Recalls config a.now recorded entries) (hle : a.now ≤ a.recordedAt)
    (hroom : outcome ≠ .throttled → Room config a.now recorded) :
    Recalls config a.recordedAt (tally recorded (a, outcome))
      (settle config a entries outcome) := by
  have hpruned : Recalls config a.recordedAt recorded
      (prune config.rateLimitWindowSeconds a.now entries) :=
    Recalls.later ⟨h.upTo, h.remembers.prune le_rfl, h.sparse⟩ hle
  have hrecorded (hne : outcome ≠ .throttled) :
      Recalls config a.recordedAt (recorded ++ [a.recordedAt])
        (prune config.rateLimitWindowSeconds a.recordedAt
          (prune config.rateLimitWindowSeconds a.now entries) ++ [a.recordedAt]) := by
    refine ⟨hpruned.upTo.snoc, ((h.remembers.prune le_rfl).prune hle).snoc _, h.sparse.snoc ?_⟩
    -- the window that was not full at the first reading is no fuller at the second
    have hfirst := hroom hne
    have hsecond := length_within_later (w := config.rateLimitWindowSeconds) h.upTo hle
    unfold Room at hfirst
    omega
  cases outcome with
  | throttled | raised _ => exact hpruned
  | originRejected | keyRejected _ => exact hrecorded (by simp)
  | authenticated _ => exact recalls_nil a.recordedAt

/-- No span of the window's width holds more than the limit. -/
theorem Recalls.spans (h : Recalls config now recorded entries) (a : ℚ) :
    (recorded.filter fun t => a < t ∧ t ≤ a + config.rateLimitWindowSeconds).length
        ≤ config.maxAuthFailuresPerWindow.toNat
      ∧ (recorded.filter fun t => a ≤ t ∧ t < a + config.rateLimitWindowSeconds).length
        ≤ config.maxAuthFailuresPerWindow.toNat := by
  have hspan := h.sparse.span h.upTo.ordered
  refine ⟨hspan _ fun s t hs ht => ?_, hspan _ fun s t hs ht => ?_⟩
  · exact (sub_le_iff_le_add.mpr (of_decide_eq_true ht).2).trans_lt (of_decide_eq_true hs).1
  · exact (sub_lt_iff_lt_add.mpr (of_decide_eq_true ht).2).trans_le (of_decide_eq_true hs).1

end Recalls

/-! ## Past authentication -/

/-- Is the handler past authentication? -/
def HandlerPhase.passed {S : Sanitizer} : HandlerPhase S → Bool
  | .connecting | .accepting | .acceptFailed | .serving _ => true
  | _ => false

theorem HandlerPhase.passed_of_holds {S : Sanitizer} {phase : HandlerPhase S}
    (h : phase.holds = true) : phase.passed = true := by
  cases phase <;> first | rfl | cases h

namespace Server

variable {clientId : Socket → Text} {s s' : Server deps.sanitizer Socket} {ws x : Socket}
  {phase : HandlerPhase deps.sanitizer}

theorem passed_moves (hphase : phase.passed = true → (s.handlers ws).passed = true)
    (h : ((s.moves ws phase).handlers x).passed = true) : (s.handlers x).passed = true := by
  have h : (Function.update s.handlers ws phase x).passed = true := h
  by_cases hx : x = ws
  · subst hx
    rw [Function.update_self] at h
    exact hphase h
  · rwa [Function.update_of_ne hx] at h

theorem passed_calls {l : AdmissionStep Socket} (hs : s.calls ws l phase = some s')
    (hphase : phase.passed = true → (s.handlers ws).passed = true)
    (h : (s'.handlers x).passed = true) : (s.handlers x).passed = true := by
  obtain ⟨admission, -, rfl⟩ := Option.map_eq_some_iff.mp hs
  exact passed_moves (s := { s with admission := admission }) hphase h

/-- **A handler passes in one step only**, when it is granted to. -/
theorem passed_step {l : ServerLabel Socket} (hs : s.step deps clientId l = some s')
    (h : (s'.handlers x).passed = true) :
    (s.handlers x).passed = true ∨ l = .authenticated x true := by
  cases l with
  | arrived ws | authRaised ws | rejected ws =>
      simp only [step] at hs
      split at hs
      · cases hs
        exact .inl (passed_moves (fun hp => by cases hp) h)
      · cases hs
  | authenticated ws granted =>
      simp only [step] at hs
      split at hs
      · split at hs
        · rename_i hgranted
          subst hgranted
          by_cases hx : x = ws
          · exact .inr (by rw [hx])
          · obtain ⟨admission, -, rfl⟩ := Option.map_eq_some_iff.mp hs
            have h : (Function.update s.handlers ws .connecting x).passed = true := h
            rw [Function.update_of_ne hx] at h
            exact .inl h
        · cases hs
          exact .inl (passed_moves (fun hp => by cases hp) h)
      · cases hs
  | acquired ws | timedOut ws | added ws | lockFailed ws | acceptRaised ws =>
      simp only [step] at hs
      split at hs
      · rename_i hp
        exact .inl (passed_calls hs (fun _ => by rw [hp]; rfl) h)
      · cases hs
  | accepted ws =>
      simp only [step] at hs
      split at hs
      · rename_i hp
        cases hs
        exact .inl (passed_moves (fun _ => by rw [hp]; rfl) h)
      · cases hs
  | conn ws label =>
      simp only [step] at hs
      split at hs
      · rename_i c hp
        have hpassed : ∀ c' : Conn deps.sanitizer, (HandlerPhase.serving c').passed = true →
            (s.handlers ws).passed = true := fun _ _ => by rw [hp]; rfl
        split at hs
        · cases hs
        · unfold connStep at hs
          split at hs
          · cases hs
          · split at hs
            · exact .inl (passed_calls hs (hpassed _) h)
            · cases hs
              exact .inl (passed_moves (hpassed _) h)
      · cases hs
  | removed ws =>
      simp only [step] at hs
      split at hs
      · exact .inl (passed_calls hs (fun hp => by cases hp) h)
      · rename_i c hp
        split at hs
        · obtain ⟨c', -, hs⟩ := Option.bind_eq_some_iff.mp hs
          exact .inl (passed_calls hs (fun _ => by rw [hp]; rfl) h)
        · cases hs
      · cases hs
  | released ws => exact .inl (passed_calls hs id h)

end Server

/-! ## Every run -/

omit [DecidableEq Socket] in
theorem AuthOutcome.comesBack_granted {outcome : AuthOutcome} {ws x : Socket} :
    outcome.comesBack ws = .authenticated x true
      ↔ ws = x ∧ ∃ key, outcome = .authenticated key := by
  cases outcome <;> simp [comesBack, websocketResult]

/-- The handler that waits for an answer takes it. -/
theorem Server.comesBack_step (clientId : Socket → Text) {s : Server deps.sanitizer Socket}
    {ws : Socket} (hwaits : s.handlers ws = .authenticating) (outcome : AuthOutcome) :
    ∃ s', s.step deps clientId (outcome.comesBack ws) = some s'
      ∧ ((s'.handlers ws).passed = true ↔ ∃ key, outcome = .authenticated key) := by
  cases outcome with
  | throttled | originRejected | keyRejected _ =>
      refine ⟨s.moves ws .rejecting, ?_, by simp [moves, HandlerPhase.passed]⟩
      simp [AuthOutcome.comesBack, AuthOutcome.websocketResult, step, hwaits]
  | raised e =>
      refine ⟨s.moves ws .refused, ?_, by simp [moves, HandlerPhase.passed]⟩
      simp [AuthOutcome.comesBack, AuthOutcome.websocketResult, step, hwaits]
  | authenticated key =>
      obtain ⟨admission, hconnect⟩ : ∃ admission, s.admission.step (.connect ws) = some admission :=
        ⟨_, rfl⟩
      refine ⟨{ s with admission := admission }.moves ws .connecting, ?_,
        by simp [moves, HandlerPhase.passed]⟩
      simp [AuthOutcome.comesBack, AuthOutcome.websocketResult, step, hwaits, calls, hconnect]

namespace Gate

/-- The handshakes so far, each with how it ended. -/
def knocked (deps : Deps) (config : AuthRuntimeConfig) (request : Socket → AuthRequest)
    (g : Gate deps.sanitizer Socket) (l : GateLabel Socket) (knocks : List Knock) : List Knock :=
  match l with
  | .handshake ws now recordedAt =>
      knocks ++ [(⟨.websocket, request ws, now, recordedAt⟩,
        (authenticateWebsocket deps.sh.lower config g.failures (request ws) now recordedAt).2)]
  | .server _ => knocks

/-- What holds of the gate between any two steps, and of the handshakes so far. -/
structure Keeps (config : AuthRuntimeConfig) (request : Socket → AuthRequest)
    (clientId : Socket → Text) (maxConnections : Nat) (g : Gate deps.sanitizer Socket)
    (knocks : List Knock) : Prop where
  presents : ∀ ws, (g.server.handlers ws).passed = true →
    Presents deps.sh.lower config (request ws)
  recalls : ∀ clientKey, Recalls config g.clock (failuresSince clientKey knocks)
    (failuresOf g.failures clientKey)
  accounted : g.server.Accounted clientId maxConnections

section Keeps

variable {request : Socket → AuthRequest} {clientId : Socket → Text} {maxConnections : Nat}
  {g g' : Gate deps.sanitizer Socket} {knocks : List Knock}

theorem keeps_create (clock : ℚ) : Keeps config request clientId maxConnections
    (create deps.sanitizer maxConnections clock : Gate deps.sanitizer Socket) [] where
  presents := fun _ h => by cases h
  recalls := fun _ => recalls_nil clock
  accounted := Server.accounted_create clientId maxConnections

/-- **Who is let in**, by the history alone. -/
theorem Keeps.authenticated (h : Keeps config request clientId maxConnections g knocks)
    (ws : Socket) {now : ℚ} (recordedAt : ℚ) (hle : g.clock ≤ now) :
    (∃ key, (authenticateWebsocket deps.sh.lower config g.failures (request ws) now recordedAt).2
        = .authenticated key)
      ↔ Room config now (failuresSince (clientFailureKey (request ws).clientHost) knocks)
        ∧ Presents deps.sh.lower config (request ws) := by
  let a : AuthAttempt := ⟨.websocket, request ws, now, recordedAt⟩
  have houtcome : (authenticateWebsocket deps.sh.lower config g.failures (request ws) now
      recordedAt).2 = _ := (attempt_spec deps.sh.lower config g.failures a).1
  have hthrottles := ((h.recalls a.clientKey).later hle).throttles
  rw [houtcome, ← verdict_authenticated (a := a) rfl]
  split
  · rename_i hfull
    exact iff_of_false (by simp) fun hroom => hthrottles.mp hfull hroom.1
  · rename_i hnot
    exact (and_iff_right (not_not.mp (mt hthrottles.mpr hnot))).symm

/-- **Preserved by every step of every handler.** -/
theorem keeps_step {l : GateLabel Socket}
    (h : Keeps config request clientId maxConnections g knocks)
    (hs : g.step deps config request clientId l = some g') :
    Keeps config request clientId maxConnections g' (knocked deps config request g l knocks) := by
  cases l with
  | handshake ws now recordedAt =>
      simp only [step] at hs
      split at hs
      · rename_i hclock
        obtain ⟨server, hserver, rfl⟩ := Option.map_eq_some_iff.mp hs
        let a : AuthAttempt := ⟨.websocket, request ws, now, recordedAt⟩
        obtain ⟨houtcome, hstore⟩ := attempt_spec deps.sh.lower config g.failures a
        refine ⟨fun x hx => ?_, fun clientKey => ?_, Server.accounted_step h.accounted hserver⟩
        · rcases Server.passed_step hserver hx with hpassed | hgranted
          · exact h.presents x hpassed
          · obtain ⟨rfl, hkey⟩ := AuthOutcome.comesBack_granted.mp hgranted
            exact ((h.authenticated ws recordedAt hclock.1).mp hkey).2
        · have hrecalls := (h.recalls clientKey).later hclock.1
          show Recalls config recordedAt (failuresSince clientKey (knocks ++ [(a, _)]))
            (failuresOf (attempt deps.sh.lower config g.failures a).1 clientKey)
          rw [failuresSince_snoc, hstore clientKey]
          by_cases hclient : a.clientKey = clientKey
          · subst hclient
            rw [if_pos rfl, if_pos rfl]
            refine Recalls.settle (a := a) hrecalls hclock.2
              fun hne => not_not.mp fun hfull => hne ?_
            exact houtcome.trans (if_pos (hrecalls.throttles.mpr hfull))
          · rw [if_neg hclient, if_neg hclient]
            exact hrecalls.later hclock.2
      · cases hs
  | server l =>
      simp only [step] at hs
      split at hs
      · cases hs
      · rename_i hauth
        obtain ⟨server, hserver, rfl⟩ := Option.map_eq_some_iff.mp hs
        refine ⟨fun x hx => ?_, h.recalls, Server.accounted_step h.accounted hserver⟩
        rcases Server.passed_step hserver hx with hpassed | rfl
        · exact h.presents x hpassed
        · exact absurd rfl hauth

end Keeps

/--
**Who gets through the gate.** However any number of handlers interleave, with whatever clients
send:

* whoever waits for a slot, holds one or is served has presented the configured key, from an
  allowed origin;
* a handshake lets in exactly those who present it while their client has room, fewer than `limit`
  failures in the window since its last success;
* in no span of the window's width has a client failed more than `limit` times since its last
  success.
-/
theorem gate_keeps {request : Socket → AuthRequest} {clientId : Socket → Text}
    {maxConnections : Nat} {clock : ℚ} {labels : List (GateLabel Socket)}
    {g : Gate deps.sanitizer Socket}
    (hrun : exec (step deps config request clientId)
      (create deps.sanitizer maxConnections clock) labels = some g) :
    let knocks := history (step deps config request clientId) (knocked deps config request)
      (create deps.sanitizer maxConnections clock) [] labels
    (∀ ws, (g.server.handlers ws).passed = true
        ∨ ws ∈ g.server.admission.handler.activeConnections →
          Presents deps.sh.lower config (request ws))
      ∧ (∀ ws now recordedAt, g.server.handlers ws = .authenticating → g.clock ≤ now →
          now ≤ recordedAt →
          ∃ g', g.step deps config request clientId (.handshake ws now recordedAt) = some g'
            ∧ ((g'.server.handlers ws).passed = true
              ↔ Room config now
                  (failuresSince (clientFailureKey (request ws).clientHost) knocks)
                ∧ Presents deps.sh.lower config (request ws)))
      ∧ ∀ clientKey a,
        ((failuresSince clientKey knocks).filter
            fun t => a < t ∧ t ≤ a + config.rateLimitWindowSeconds).length
          ≤ config.maxAuthFailuresPerWindow.toNat
        ∧ ((failuresSince clientKey knocks).filter
            fun t => a ≤ t ∧ t < a + config.rateLimitWindowSeconds).length
          ≤ config.maxAuthFailuresPerWindow.toNat := by
  have h : Keeps config request clientId maxConnections g
      (history (step deps config request clientId) (knocked deps config request)
        (create deps.sanitizer maxConnections clock) [] labels) := by
    refine history_inv ?_ (keeps_create clock) hrun
    intro g l g' knocks hkeeps hs
    exact keeps_step hkeeps hs
  refine ⟨fun ws hpassed => ?_, fun ws now recordedAt hwaits hclock hle => ?_,
    fun clientKey a => (h.recalls clientKey).spans a⟩
  · rcases hpassed with hpassed | hactive
    · exact h.presents ws hpassed
    · exact h.presents ws (HandlerPhase.passed_of_holds ((h.accounted.mem_iff ws).mp hactive))
  · let answer :=
      authenticateWebsocket deps.sh.lower config g.failures (request ws) now recordedAt
    obtain ⟨server, hserver, hpassed⟩ := Server.comesBack_step clientId hwaits answer.2
    refine ⟨⟨server, answer.1, recordedAt⟩, ?_,
      hpassed.trans (h.authenticated ws recordedAt hclock)⟩
    simp only [step, if_pos (And.intro hclock hle)]
    rw [hserver]
    rfl

/-- A guess, the right key too soon after it, and the right key again. -/
def sampleRequests (ws : Fin 3) : AuthRequest :=
  sampleHandshake (if ws = 0 then "guess".toList else "secret".toList)

def sampleKnocks : List (GateLabel (Fin 3)) :=
  [.server (.arrived 0), .server (.arrived 1), .handshake 0 0 1, .handshake 1 2 2,
    .server (.rejected 0), .server (.arrived 2), .handshake 2 61 61, .server (.acquired 2)]

/-- The step of a server that throttles after one failure a minute. -/
abbrev sampleStep : Gate plainSanitizer (Fin 3) → GateLabel (Fin 3) →
    Option (Gate plainSanitizer (Fin 3)) :=
  step (.sample true false) (sampleAuthConfig 1) sampleRequests fun _ => "client".toList

theorem gate_keeps_tooSoon :
    ∃ g, exec sampleStep (create plainSanitizer 1 0) sampleKnocks = some g
      ∧ (g.server.handlers 1).passed = false
      ∧ Presents id (sampleAuthConfig 1) (sampleRequests 2) := by
  have hrun : (exec sampleStep (create plainSanitizer 1 0) sampleKnocks).map
      (fun g => ((g.server.handlers 1).passed, (g.server.handlers 2).passed))
        = some (false, true) := by
    decide +kernel
  obtain ⟨g, hg, hpassed⟩ := Option.map_eq_some_iff.mp hrun
  obtain ⟨hout, hin⟩ := Prod.mk.inj hpassed
  exact ⟨g, hg, hout, (gate_keeps hg).1 2 (.inl hin)⟩

end Gate

end YapInference
