import YapInference.Proof.ConnStep

/-!
# Which sampling value reaches the engine

A start validates its overrides and stores them in the session's metadata; a message
validates its own, stores them over the start's, and puts only its own into the plan. The
runner resolves the plan against the server defaults, and nothing reads the metadata. So
what a start asked for counts only where it would have been the default anyway.
-/

namespace YapInference

open Py Conn

/-- The value the documentation promises: the message's, else the session's, else the
server's. -/
def expectedSampling (cfg : ServerConfig) (message session : SamplingOverrides)
    (field : SamplingField) : SamplingValue :=
  (message.get? field).getD ((session.get? field).getD (cfg.samplingDefault field))

/-- Is a field's value the promised one although the session's overrides are not read? -/
def SessionUnneeded (cfg : ServerConfig) (message session : SamplingOverrides)
    (field : SamplingField) : Prop :=
  (message.get? field).isSome = true ∨ session.get? field = none
    ∨ session.get? field = some (cfg.samplingDefault field)

/-! ## From a message to the engine -/

theorem planMessageTurn_sampling {sh : SessionHandler} {parsing : NumberParsing} {ids : PlanIds}
    {s s' : SessionState} {msg : Dict Text Json} {plan : TurnPlan}
    (h : planMessageTurn sh parsing ids s msg = .planned s' plan) :
    ∃ message, extractSamplingOverrides parsing msg sh.historyConfig.deployChat = .ok message
      ∧ ∀ field, (plan.samplingOverrides.getD []).get? field = message.get? field := by
  obtain ⟨message, _, hm, rfl, rfl⟩ := planMessageTurn_planned h
  refine ⟨message, hm, fun field => ?_⟩
  show ((if sh.historyConfig.deployChat = true then
    (if message.isEmpty then none else some message) else none).getD []).get? field = _
  split
  · split
    · rename_i he
      rw [List.isEmpty_iff.mp he]
      rfl
    · rfl
  · rename_i hchat
    simp only [extractSamplingOverrides, hchat] at hm
    cases hm
    rfl

theorem bootstrapStartTurn_sampling {sh : SessionHandler} {parsing : NumberParsing}
    {pt : PromptText} {freshId : Nat → TurnId} {s s' : SessionState} {msg : Dict Text Json}
    (h : bootstrapStartTurn sh parsing pt freshId s msg = .accepted s') :
    ∃ session, extractSamplingOverrides parsing msg sh.historyConfig.deployChat = .ok session := by
  cases hx : extractSamplingOverrides parsing msg sh.historyConfig.deployChat with
  | ok session => exact ⟨session, rfl⟩
  | error e =>
      -- an error of the extraction is an error of the start
      have hinputs : ∃ e', resolveStartInputs sh parsing pt msg = .error e' := by
        unfold resolveStartInputs
        dsimp only
        split
        · exact ⟨_, rfl⟩
        · split
          · exact ⟨_, rfl⟩
          · split
            · exact ⟨_, rfl⟩
            · rw [hx]
              exact ⟨_, rfl⟩
      obtain ⟨e', he'⟩ := hinputs
      unfold bootstrapStartTurn at h
      dsimp only at h
      rw [he'] at h
      split at h
      · cases h
      · cases h
      · rename_i hc; cases hc

/-- **The engine gets the promised value of a field exactly when the session's overrides are
not needed for it.** -/
theorem engineSampling_iff (cfg : ServerConfig) {overrides : Option SamplingOverrides}
    {message session : SamplingOverrides} {field : SamplingField}
    (h : (overrides.getD []).get? field = message.get? field) :
    engineSampling cfg overrides field = expectedSampling cfg message session field
      ↔ SessionUnneeded cfg message session field := by
  unfold engineSampling resolveSamplingOverrides expectedSampling SessionUnneeded
  rw [h]
  cases message.get? field with
  | some v => simp
  | none =>
      cases session.get? field with
      | none => simp
      | some v => simp [eq_comm]

/-! ## Over a connection -/

/-- The overrides of every accepted start and every planned message are on record. -/
structure OverridesLogged (deps : Deps) (c : Conn deps.sanitizer) : Prop where
  starting : ∀ msg, c.starting = some msg → ∃ session,
    extractSamplingOverrides deps.parsing msg deps.sh.historyConfig.deployChat = .ok session
  accepted : ∀ msg, LoopEvent.startAccepted msg ∈ c.log → ∃ session,
    extractSamplingOverrides deps.parsing msg deps.sh.historyConfig.deployChat = .ok session
  planned : ∀ msg plan, LoopEvent.turnPlanned msg plan ∈ c.log → ∃ message,
    extractSamplingOverrides deps.parsing msg deps.sh.historyConfig.deployChat = .ok message
      ∧ ∀ field, (plan.samplingOverrides.getD []).get? field = message.get? field

/-- A start that is being answered was accepted. -/
theorem starting_step {deps : Deps} {c c' : Conn deps.sanitizer} {label : Label}
    (hs : c.step deps label = some c') :
    c'.starting = c.starting ∨ c'.starting = none
      ∨ ∃ msg freshId session, c'.starting = some msg
        ∧ bootstrapStartTurn deps.sh deps.parsing deps.promptText freshId c.session msg
          = .accepted session := by
  rcases step_cases hs with ⟨rfl, rfl⟩ | ⟨id, event, rfl, ht⟩ | hl
  · exact Or.inl rfl
  · cases ht with
    | streamed _ _ _ _ | ran _ _ _ => exact Or.inl rfl
  · cases hl with
    | @raised _ c₁ e hr =>
        obtain ⟨phase, -, heq⟩ := raiseLoop_cases deps.sh.lower c₁ e
        rw [heq]
        cases hr <;> exact Or.inl rfl
    | startAnswered _ _ hb => exact Or.inr (Or.inr ⟨_, _, _, rfl, hb⟩)
    | @replied frame next _ b _ _ =>
        cases next with
        | startAccepted => exact Or.inr (Or.inl rfl)
        | «continue» | setStarted _ | closeThenSet _ | endSession => exact Or.inl rfl
    | messagePlans _ _ _ hplan | abortedPlans _ hplan => cases hplan <;> exact Or.inl rfl
    | began _ =>
        unfold beginSection
        dsimp only
        split <;> exact Or.inl rfl
    | _ => exact Or.inl rfl

theorem overridesLogged_step {deps : Deps} {c c' : Conn deps.sanitizer} {label : Label}
    (h : OverridesLogged deps c) (hs : c.step deps label = some c') : OverridesLogged deps c' := by
  obtain ⟨events, hlog, hsource⟩ := step_logged hs
  refine ⟨?_, ?_, ?_⟩
  · intro msg hmsg
    rcases starting_step hs with heq | hnone | ⟨msg', freshId, session, hsome, hb⟩
    · exact h.starting msg (heq ▸ hmsg)
    · rw [hnone] at hmsg; cases hmsg
    · obtain rfl := Option.some.inj (hmsg.symm.trans hsome)
      exact bootstrapStartTurn_sampling hb
  · intro msg hm
    rw [hlog] at hm
    rcases List.mem_append.mp hm with hm | hm
    · exact h.accepted msg hm
    · cases hsource _ hm with
      | accepted hstart => exact h.starting msg hstart
  · intro msg plan hm
    rw [hlog] at hm
    rcases List.mem_append.mp hm with hm | hm
    · exact h.planned msg plan hm
    · cases hsource _ hm with
      | planned hplan => exact planMessageTurn_sampling hplan

/--
**Session sampling reaches the engine exactly where it is not needed.** In every run, for
every accepted start with overrides `session` and every message with overrides `message`
planned after it, and for every field: the engine is given the promised value if and only
if the message has one, or the start has none, or the start's is the server default.
-/
theorem sessionSampling_iff (deps : Deps) (clientId : Text) (labels : List Label)
    (c : Conn deps.sanitizer)
    (h : Lts.exec (Conn.step deps) (Conn.init deps.sanitizer deps.sh.server clientId) labels
      = some c)
    (front middle back : List LoopEvent) (start msg : Dict Text Json) (plan : TurnPlan)
    (hlog : c.log = front ++ .startAccepted start :: middle ++ .turnPlanned msg plan :: back) :
    ∃ session message,
      extractSamplingOverrides deps.parsing start deps.sh.historyConfig.deployChat = .ok session
        ∧ extractSamplingOverrides deps.parsing msg deps.sh.historyConfig.deployChat = .ok message
        ∧ ∀ field, engineSampling deps.sh.server plan.samplingOverrides field
              = expectedSampling deps.sh.server message session field
            ↔ SessionUnneeded deps.sh.server message session field := by
  have hinv : OverridesLogged deps c :=
    Lts.exec_inv (fun _ _ _ hi hs => overridesLogged_step hi hs)
      ⟨fun _ hm => absurd hm (by simp [Conn.init]), fun _ hm => absurd hm (by simp [Conn.init]),
        fun _ _ hm => absurd hm (by simp [Conn.init])⟩ h
  obtain ⟨session, hsession⟩ := hinv.accepted start (by rw [hlog]; simp)
  obtain ⟨message, hmessage, hget⟩ := hinv.planned msg plan (by rw [hlog]; simp)
  exact ⟨session, message, hsession, hmessage, fun field => engineSampling_iff _ (hget field)⟩

/-- A start that asks for a `top_k`, and a message that does not. -/
def sampledStart : Dict Text Json := sampleStart [("top_k".toList, .int 40)]

def sampledTurn : List Label :=
  [.recv (.start sampledStart) 0, .sent .ack, .recv (.message (utterance "hello".toList)) 0]

/-- The plan of that message. -/
def sampledPlan : TurnPlan where
  requestId := 0
  staticPrefix := "Be kind.".toList
  runtimeText := []
  historyMessages := []
  deployChat := true
  deployTool := false
  chatUserUtt := some "hello".toList
  toolUserUtt := none
  historyTurnId := none
  samplingOverrides := none
  applyScreenCheckedPrefix := false

theorem sampledTurn_log :
    ∃ c, Lts.exec (Conn.step .unlimited)
        (Conn.init plainSanitizer Deps.unlimited.sh.server "client".toList) sampledTurn = some c
      ∧ c.log = [.startHandled []] ++ .startAccepted sampledStart
        :: [.turnDispatched] ++ .turnPlanned (utterance "hello".toList) sampledPlan :: [] := by
  have hrun : (Lts.exec (Conn.step .unlimited)
      (Conn.init plainSanitizer Deps.unlimited.sh.server "client".toList) sampledTurn).map Conn.log
      = some ([.startHandled []] ++ .startAccepted sampledStart
        :: [.turnDispatched] ++ .turnPlanned (utterance "hello".toList) sampledPlan :: []) := rfl
  exact Option.map_eq_some_iff.mp hrun

theorem sessionSampling_iff_topK :
    ∃ session message,
      extractSamplingOverrides noNumbers sampledStart true = .ok session
        ∧ extractSamplingOverrides noNumbers (utterance "hello".toList) true = .ok message
        ∧ (engineSampling Deps.unlimited.sh.server sampledPlan.samplingOverrides .topK
              = expectedSampling Deps.unlimited.sh.server message session .topK
            ↔ SessionUnneeded Deps.unlimited.sh.server message session .topK) := by
  obtain ⟨c, hc, hlog⟩ := sampledTurn_log
  obtain ⟨session, message, hs, hm, hiff⟩ := sessionSampling_iff .unlimited
    "client".toList sampledTurn c hc _ _ _ _ _ _ hlog
  exact ⟨session, message, hs, hm, hiff .topK⟩

/-- **A session's `top_k` that is never used.** The start asked for 40, the message for
nothing, and the engine gets the server's 30. -/
theorem sessionSampling_dropped :
    ∃ c session message, Lts.exec (Conn.step .unlimited)
        (Conn.init plainSanitizer Deps.unlimited.sh.server "client".toList) sampledTurn = some c
      ∧ c.log = [.startHandled []] ++ .startAccepted sampledStart
        :: [.turnDispatched] ++ .turnPlanned (utterance "hello".toList) sampledPlan :: []
      ∧ extractSamplingOverrides noNumbers sampledStart true = .ok session
      ∧ extractSamplingOverrides noNumbers (utterance "hello".toList) true = .ok message
      ∧ engineSampling Deps.unlimited.sh.server sampledPlan.samplingOverrides .topK = .int 30
      ∧ expectedSampling Deps.unlimited.sh.server message session .topK = .int 40 := by
  obtain ⟨c, hc, hlog⟩ := sampledTurn_log
  exact ⟨c, [(.topK, .int 40)], [], hc, hlog, rfl, rfl, rfl, rfl⟩

end YapInference
