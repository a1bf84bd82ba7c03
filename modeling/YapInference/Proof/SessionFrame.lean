import YapInference.Session.Requests
import YapInference.WebSocket.Connection

/-!
# What an operation writes to the session

Every operation on a session writes to a few of its fields. Which ones is said once for each, and
what it leaves alone follows: storing and trimming write to one history and put the other in place,
an import writes to both, the request operations write to the bookkeeping of the requests, and a
plan brings the sampling up to date.
-/

namespace YapInference

open Py Conn

/-! ## The histories -/

/-- `s'` is `s` with other histories. -/
def WritesHistory (s' s : SessionState) : Prop :=
  ∃ chat tool, s' = { s with chatHistoryMessages := chat, toolHistoryTurns := tool }

namespace WritesHistory

theorem refl (s : SessionState) : WritesHistory s s := ⟨_, _, rfl⟩

theorem trans {a b c : SessionState} (h₁ : WritesHistory a b) (h₂ : WritesHistory b c) :
    WritesHistory a c := by
  obtain ⟨chat, tool, rfl⟩ := h₁
  obtain ⟨chat', tool', rfl⟩ := h₂
  exact ⟨chat, tool, rfl⟩

theorem cancelRequested {s' s : SessionState} (h : WritesHistory s' s) :
    s'.cancelRequested = s.cancelRequested := by
  obtain ⟨_, _, rfl⟩ := h
  rfl

theorem screenFollowupPending {s' s : SessionState} (h : WritesHistory s' s) :
    s'.screenFollowupPending = s.screenFollowupPending := by
  obtain ⟨_, _, rfl⟩ := h
  rfl

end WritesHistory

/-- A store that is at most put in place: there is one exactly if its model is deployed. -/
def Placed {α : Type} (deployed : Bool) (store' store : Option (List α)) : Prop :=
  store' = store ∨ store' = if deployed then some (store.getD []) else none

namespace Placed

variable {α : Type} {deployed : Bool} {a b c : Option (List α)}

theorem trans (h₁ : Placed deployed a b) (h₂ : Placed deployed b c) : Placed deployed a c := by
  rcases h₁ with rfl | rfl
  · exact h₂
  · rcases h₂ with rfl | rfl
    · exact Or.inr rfl
    · cases deployed <;> exact Or.inr rfl

/-- What is stored stays, if nothing is stored for a model that is not deployed. -/
theorem getD_eq (h : Placed deployed a b) (hnone : deployed = false → b.getD [] = []) :
    a.getD [] = b.getD [] := by
  rcases h with rfl | rfl
  · rfl
  · cases deployed with
    | true => rfl
    | false => exact (hnone rfl).symm

end Placed

/-- The chat history is written, and the tool history at most put in place. -/
structure WritesChat (h : HistoryController) (s' s : SessionState) : Prop where
  history : WritesHistory s' s
  tool : Placed h.config.deployTool s'.toolHistoryTurns s.toolHistoryTurns

/-- The tool history is written, and the chat history at most put in place. -/
structure WritesTool (h : HistoryController) (s' s : SessionState) : Prop where
  history : WritesHistory s' s
  chat : Placed h.config.deployChat s'.chatHistoryMessages s.chatHistoryMessages

section

variable {h : HistoryController} {a b c : SessionState}

namespace WritesChat

theorem refl (h : HistoryController) (s : SessionState) : WritesChat h s s := ⟨.refl s, Or.inl rfl⟩

theorem trans (h₁ : WritesChat h a b) (h₂ : WritesChat h b c) : WritesChat h a c :=
  ⟨h₁.history.trans h₂.history, h₁.tool.trans h₂.tool⟩

theorem toolTurns (hw : WritesChat h a b) (htool : h.config.deployTool = true) :
    HistoryController.toolTurns a = HistoryController.toolTurns b :=
  hw.tool.getD_eq fun hd => absurd (htool.symm.trans hd) (by simp)

end WritesChat

namespace WritesTool

theorem refl (h : HistoryController) (s : SessionState) : WritesTool h s s := ⟨.refl s, Or.inl rfl⟩

theorem trans (h₁ : WritesTool h a b) (h₂ : WritesTool h b c) : WritesTool h a c :=
  ⟨h₁.history.trans h₂.history, h₁.chat.trans h₂.chat⟩

theorem chatMessages (hw : WritesTool h a b)
    (hnone : h.config.deployChat = false → HistoryController.chatMessages b = []) :
    HistoryController.chatMessages a = HistoryController.chatMessages b :=
  hw.chat.getD_eq hnone

end WritesTool

end

namespace HistoryController

variable (h : HistoryController)

theorem syncModeStorage_writesChat (s : SessionState) : WritesChat h (h.syncModeStorage s) s :=
  ⟨⟨_, _, rfl⟩, Or.inr rfl⟩

theorem syncModeStorage_writesTool (s : SessionState) : WritesTool h (h.syncModeStorage s) s :=
  ⟨⟨_, _, rfl⟩, Or.inr rfl⟩

theorem trimChatStoreEager_writes (s : SessionState) (importMode : Bool) :
    WritesChat h (h.trimChatStoreEager s importMode) s := by
  unfold trimChatStoreEager
  split
  · exact .refl h s
  · split <;> exact ⟨⟨_, _, rfl⟩, Or.inl rfl⟩

theorem trimToolStoreEager_writes (s : SessionState) :
    WritesTool h (h.trimToolStoreEager s) s := by
  unfold trimToolStoreEager
  split
  · exact .refl h s
  · split
    · exact .refl h s
    · exact ⟨⟨_, _, rfl⟩, Or.inl rfl⟩

theorem appendToolTurn_writes (freshId : TurnId) (s : SessionState) (user : Text)
    (turnId : Option TurnId) : WritesTool h (h.appendToolTurn freshId s user turnId) s := by
  have hsync := h.syncModeStorage_writesTool s
  unfold appendToolTurn
  dsimp only
  split
  · exact hsync
  · split <;>
      exact (h.trimToolStoreEager_writes _).trans (.trans ⟨⟨_, _, rfl⟩, Or.inl rfl⟩ hsync)

theorem appendChatResponse_writes (s : SessionState) (user assistant : Text) :
    WritesChat h (h.appendChatResponse s user assistant) s := by
  have hsync := h.syncModeStorage_writesChat s
  unfold appendChatResponse
  dsimp only
  split
  · exact hsync
  · refine (h.trimChatStoreEager_writes _ _).trans (.trans ?_ hsync)
    split <;> exact ⟨⟨_, _, rfl⟩, Or.inl rfl⟩

theorem setModeHistories_writes (freshId : Nat → TurnId) (s : SessionState)
    (chat : Option (List ImportedMessage)) (tool : Option (List HistoryTurn)) :
    WritesHistory (h.setModeHistories freshId s chat tool) s := by
  have hchat : ∀ messages,
      WritesHistory (h.setChatHistoryStore (h.syncModeStorage s) messages) s := fun messages =>
    (h.trimChatStoreEager_writes _ _).history.trans ⟨_, _, rfl⟩
  unfold setModeHistories setToolHistoryStore
  dsimp only
  split
  · exact hchat _
  · exact (h.trimToolStoreEager_writes _).history.trans (.trans ⟨_, _, rfl⟩ (hchat _))

end HistoryController

theorem prepareToolTurn_writes {sh : SessionHandler} {freshId : TurnId} {s s' : SessionState}
    {user u hist : Text} {turnId : Option TurnId}
    (he : sh.prepareToolTurn freshId s user turnId = .ok (s', u, hist)) :
    WritesTool sh.history s' s := by
  have hsync := sh.history.syncModeStorage_writesTool s
  unfold SessionHandler.prepareToolTurn at he
  dsimp only at he
  split at he
  · cases he
  · injection he with he
    injection he with hs
    subst hs
    split
    · exact hsync
    · exact (sh.history.appendToolTurn_writes _ _ _ _).trans hsync

theorem commitAppends_writes (sh : SessionHandler) (s : SessionState)
    (appends : List (Text × Text)) : WritesChat sh.history (commitAppends sh s appends) s := by
  induction appends generalizing s with
  | nil => exact .refl sh.history s
  | cons a rest ih => exact (ih _).trans (sh.history.appendChatResponse_writes s _ _)

/-! ## The bookkeeping of the requests -/

/-- `s'` is `s` with other bookkeeping of its requests. -/
def WritesRequests (s' s : SessionState) : Prop :=
  ∃ task id lifecycle cancelled, s' = { s with
    activeRequestTask := task
    activeRequestId := id
    lifecycleState := lifecycle
    cancelRequested := cancelled }

namespace WritesRequests

variable {s' s : SessionState}

theorem refl (s : SessionState) : WritesRequests s s := ⟨_, _, _, _, rfl⟩

theorem chatMessages (h : WritesRequests s' s) :
    HistoryController.chatMessages s' = HistoryController.chatMessages s := by
  obtain ⟨_, _, _, _, rfl⟩ := h
  rfl

theorem toolTurns (h : WritesRequests s' s) :
    HistoryController.toolTurns s' = HistoryController.toolTurns s := by
  obtain ⟨_, _, _, _, rfl⟩ := h
  rfl

theorem screenFollowupPending (h : WritesRequests s' s) :
    s'.screenFollowupPending = s.screenFollowupPending := by
  obtain ⟨_, _, _, _, rfl⟩ := h
  rfl

end WritesRequests

theorem beginSessionRequest_writes (s : SessionState) (requestId : RequestId) :
    WritesRequests (beginSessionRequest s requestId).1 s := by
  unfold beginSessionRequest
  split
  · exact .refl s
  · exact ⟨_, _, _, _, rfl⟩

theorem attachRequestTask_writes (s : SessionState) (requestId : RequestId) (task : TaskId) :
    WritesRequests (attachRequestTask s requestId task) s := by
  unfold attachRequestTask
  split
  · exact .refl s
  · split
    · exact .refl s
    · exact ⟨_, _, _, _, rfl⟩

theorem cleanupSessionRequests_writes (s : SessionState) (requestId : Option RequestId)
    (force : Bool) : WritesRequests (cleanupSessionRequests s requestId force) s := by
  unfold cleanupSessionRequests
  split
  · exact .refl s
  · exact ⟨_, _, _, _, rfl⟩

/-! ## Planning, and the decision -/

/-- **What a plan is made from**: the session with its sampling brought up to date, and the metadata
from before. -/
theorem planMessageTurn_planned {sh : SessionHandler} {parsing : NumberParsing} {ids : PlanIds}
    {s s' : SessionState} {msg : Dict Text Json} {plan : TurnPlan}
    (h : planMessageTurn sh parsing ids s msg = .planned s' plan) :
    ∃ overrides sampling,
      extractSamplingOverrides parsing msg sh.historyConfig.deployChat = .ok overrides
        ∧ let built := buildMessageTurnPlan sh ids
            { s with metadata := { s.metadata with chatSampling := sampling } } s.metadata
            (strip ((Json.getText msg "user_utterance".toList).getD [])) overrides
          s' = built.1 ∧ plan = built.2 := by
  unfold planMessageTurn at h
  dsimp only at h
  split at h
  · cases h
  · split at h
    · cases h
    · split at h
      · cases h
      · cases h
      · rename_i overrides hx
        obtain ⟨sampling, hupdated⟩ : ∃ sampling, (if overrides.isEmpty then s
            else updateSessionConfig sh.server sh.countPrefixTokens s (samplingUpdate overrides))
              = { s with metadata := { s.metadata with chatSampling := sampling } } := by
          split <;> exact ⟨_, rfl⟩
        rw [hupdated] at h
        injection h with hs hp
        subst hs hp
        exact ⟨overrides, sampling, hx, rfl, rfl⟩

/-- The decision of a turn with a tool is noted. -/
theorem chatUserUttForPlan_session (sh : SessionHandler) (s : SessionState) (plan : TurnPlan)
    (isTool : Bool) : (chatUserUttForPlan sh s plan isTool).1 = { s with
      screenFollowupPending := if plan.deployTool then
          (if isTool then true
            else if plan.applyScreenCheckedPrefix then false else s.screenFollowupPending)
        else s.screenFollowupPending } := by
  unfold chatUserUttForPlan resolveUserUtteranceForChat
  dsimp only
  split
  · split <;> cases isTool <;> cases plan.applyScreenCheckedPrefix <;> rfl
  · rfl

theorem startStream_session (deps : Deps) (s : SessionState) (plan : TurnPlan) (isTool : Bool)
    (now : ℚ) : (startStream deps s plan isTool now).1
      = (chatUserUttForPlan deps.sh s plan isTool).1 := by
  unfold startStream
  dsimp only
  split
  · rfl
  · split <;> rfl

/-! ## Starting -/

theorem resolveHistory_writes (sh : SessionHandler) (freshId : Nat → TurnId) (s : SessionState)
    (msg : Dict Text Json) : WritesHistory (resolveHistory sh freshId s msg) s := by
  have hget : ∀ s' : SessionState, WritesHistory s' s → WritesHistory (sh.getChatMessages s').1 s :=
    fun s' hs => (sh.history.syncModeStorage_writesChat s').history.trans hs
  unfold resolveHistory
  split
  · exact hget s (.refl s)
  · split
    · dsimp only
      refine hget _ ?_
      split
      · exact sh.history.setModeHistories_writes _ _ _ _
      · split <;> exact sh.history.setModeHistories_writes _ _ _ _
    · exact hget s (.refl s)

theorem fitStartChatHistory_writes {sh : SessionHandler} {s s' : SessionState} {prompt rt : Text}
    (h : sh.fitStartChatHistory s prompt rt = .ok s') : WritesChat sh.history s' s := by
  have hsync := sh.history.syncModeStorage_writesChat s
  unfold SessionHandler.fitStartChatHistory at h
  split at h
  · cases h; exact .refl sh.history s
  · split at h
    · cases h
    · dsimp only at h
      split at h
      · cases h; exact hsync
      · split at h
        · cases h
        · split at h
          · cases h
          · cases h
            exact .trans ⟨⟨_, _, rfl⟩, Or.inl rfl⟩ hsync

/-- The session a start leaves, whatever it came to. -/
def StartResult.state : StartResult → SessionState
  | .rejected state _ | .escaped state _ | .accepted state => state

/-- A start resets the session, configures it if it is valid, and imports a history. -/
theorem bootstrapStartTurn_writes (sh : SessionHandler) (parsing : NumberParsing) (pt : PromptText)
    (freshId : Nat → TurnId) (s : SessionState) (msg : Dict Text Json) :
    (bootstrapStartTurn sh parsing pt freshId s msg).state = sh.initializeSession s
      ∨ ∃ update, WritesHistory (bootstrapStartTurn sh parsing pt freshId s msg).state
        (updateSessionConfig sh.server sh.countPrefixTokens (sh.initializeSession s) update) := by
  unfold bootstrapStartTurn
  dsimp only
  split
  · exact Or.inl rfl
  · exact Or.inl rfl
  · rename_i update _
    have hresolved := resolveHistory_writes sh freshId
      (updateSessionConfig sh.server sh.countPrefixTokens (sh.initializeSession s) update) msg
    refine Or.inr ⟨update, ?_⟩
    split
    · exact hresolved
    · split
      · exact hresolved
      · exact hresolved
      · rename_i hfit
        exact (fitStartChatHistory_writes hfit).history.trans hresolved

end YapInference
