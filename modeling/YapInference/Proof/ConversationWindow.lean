import YapInference.Lib.Outputs
import YapInference.Proof.BargeIn
import YapInference.Proof.HistoryImport

/-!
# The store is the end of the conversation

The chat store is trimmed after every write, and once more when a start fits the history to the
context. `transcript` is the conversation as it would be had nothing ever been trimmed: the
history the client sent with its start, and every commit of a turn, in the order they were made.

Trimming takes whole turns away from the front, and all that a write looks at is the last message,
so the store stays the last turns of the transcript. So is what is put into a prompt.
-/

namespace YapInference

open Py Split Conn

/-! ## The conversation without trimming -/

/-- Record a commit, as `append_chat_turn` does before it trims. -/
def recordCommit (sh : SessionHandler) (session : SessionState) (whole : List ChatMessage)
    (a : Commit) : List ChatMessage :=
  let user := strip (sh.stripScreenPrefixes session a.user)
  if user = [] then whole else recordTurn whole (user, a.reply)

/-- The messages a start brings with it. -/
def startHistory (lower : Lower) (msg : Dict Text Json) : List ChatMessage :=
  match Json.get? msg "history".toList with
  | some (.list items) => parseHistoryForChat lower items
  | _ => []

/-- A start that is valid brings its history, unless there is one. -/
def recordStart (deps : Deps) (whole : List ChatMessage) (msg : Dict Text Json) :
    List ChatMessage :=
  match resolveStartInputs deps.sh deps.parsing deps.promptText msg with
  | .error _ => whole
  | .ok _ => if whole.isEmpty then startHistory deps.sh.lower msg else whole

namespace Conn

/-- The start that a step hands to `bootstrap_start_turn`. -/
def startOf {S : Sanitizer} (c : Conn S) : Label → Option (Dict Text Json)
  | .recv (.start msg) now =>
      match c.phase with
      | .receiving => if (c.messageLimiter.consume now).2 && !c.started then some msg else none
      | _ => none
  | _ => none

/-- What a step adds to the conversation. -/
def record (deps : Deps) (c : Conn deps.sanitizer) (label : Label) (whole : List ChatMessage) :
    List ChatMessage :=
  match c.startOf label with
  | some msg => recordStart deps whole msg
  | none => (c.commits label).foldl (recordCommit deps.sh c.session) whole

/-- **The whole conversation of a run**, untrimmed. -/
def transcript (deps : Deps) (c : Conn deps.sanitizer) (labels : List Label) :
    List ChatMessage :=
  Lts.history (Conn.step deps) (record deps) c [] labels

end Conn

/-! ## Writing at the end -/

theorem recent_pushChatMessage {kept whole : List ChatMessage} (h : Recent isUser kept whole)
    (m : ChatMessage) :
    Recent isUser (pushChatMessage kept m) (pushChatMessage whole m) := by
  have hlast := h.getLast?
  unfold pushChatMessage
  rw [← hlast]
  split
  · rename_i last hrole hkept
    split
    · rename_i huser
      obtain ⟨kept, rfl⟩ := List.getLast?_eq_some_iff.mp hkept
      obtain ⟨whole, rfl⟩ := List.getLast?_eq_some_iff.mp (hlast ▸ hkept)
      rw [List.dropLast_concat, List.dropLast_concat]
      exact h.replace_last rfl
    · exact h.snoc m
  · exact h.snoc m

theorem recent_recordTurn {kept whole : List ChatMessage} (h : Recent isUser kept whole)
    (turn : Text × Text) : Recent isUser (recordTurn kept turn) (recordTurn whole turn) := by
  unfold recordTurn
  dsimp only
  have huser := recent_pushChatMessage h { role := .user, content := turn.1 }
  split
  · exact huser
  · exact recent_pushChatMessage huser _

theorem recordTurn_canonical {whole : List ChatMessage} (h : Canonical whole) {user reply : Text}
    (huser : Clean user) : Canonical (recordTurn whole (user, reply)) := by
  unfold recordTurn
  dsimp only
  have hpushed := pushChatMessage_canonical h (m := { role := .user, content := user }) huser
  split
  · exact hpushed
  · rename_i hreply
    exact pushChatMessage_canonical hpushed (clean_strip hreply)

/-- What a store keeps of a list is the last of its turns. -/
theorem recent_of_keepsTurns {pre stored : List ChatMessage} (h : AllClean pre)
    (hk : KeepsTurns pre stored) : Recent isUser stored pre := by
  obtain ⟨k, hgroups, hstored⟩ := hk.turns
  obtain ⟨hsplit, -⟩ := groupChatTurns_inv pre
  by_cases hlt : k < (groupChatTurns pre).length
  · have hrecent := Recent.of_drop hsplit hlt
    rwa [← hstored, flatten_groupChatTurns h] at hrecent
  · -- nothing is kept, so there was nothing
    have hnil : (groupChatTurns pre).drop k = [] := List.drop_eq_nil_of_le (Nat.not_lt.mp hlt)
    have hnewest := hk.newest
    rw [hgroups, hnil] at hnewest
    have hpre : groupChatTurns pre = [] := List.getLast?_eq_none_iff.mp hnewest.symm
    have hflat := flatten_groupChatTurns h
    rw [hstored, hnil, ← hflat, hpre]
    exact Recent.refl _

theorem recent_trimChatMessages (sh : SessionHandler) {pre whole : List ChatMessage}
    (h : Recent isUser pre whole) (hcanonical : Canonical pre)
    (triggerTokens targetTokens : Option Int) :
    Recent isUser
      (trimChatMessages sh.historyConfig sh.chatTokenizer triggerTokens targetTokens pre)
      whole := by
  obtain ⟨-, hkeeps, -⟩ := trimChatMessages_spec sh hcanonical triggerTokens targetTokens
  exact (recent_of_keepsTurns hcanonical.clean hkeeps).trans h

/-- The last messages have the last groups. -/
theorem recent_groups {kept whole : List ChatMessage} (h : Recent isUser kept whole)
    (hclean : AllClean whole) : groupChatTurns kept <:+ groupChatTurns whole := by
  have hkept : AllClean kept := fun m hm => hclean m (h.suffix.subset hm)
  rw [groupChatTurns_eq, groupChatTurns_eq, copyChatMessages_of_allClean hkept,
    copyChatMessages_of_allClean hclean]
  exact h.groups

/-! ## The invariant -/

/-- The store is the last turns of the conversation. -/
structure Windowed (stored whole : List ChatMessage) : Prop where
  recent : Recent isUser stored whole
  canonical : Canonical whole

theorem Windowed.stored {stored whole : List ChatMessage} (h : Windowed stored whole) :
    Canonical stored := h.canonical.suffix h.recent.suffix

section Commits

variable {sh : SessionHandler} (hchat : sh.historyConfig.deployChat = true)
include hchat

/-- What `append_chat_turn` assembles. -/
theorem untrimmed_recordTurn {session : SessionState} {user : Text}
    (huser : strip (sh.stripScreenPrefixes session user) ≠ []) (reply : Text) :
    (StoreOp.appendChatTurn user reply).untrimmed sh session
      = recordTurn (HistoryController.chatMessages session)
          (strip (sh.stripScreenPrefixes session user), reply) := by
  have hne : (strip (sh.normalizeUserUtterances session user none).1).isEmpty = false := by
    simpa [SessionHandler.normalizeUserUtterances] using huser
  have hpush := appendChatMessageToList_push sh.history hchat
    (HistoryController.chatMessages session) .user
    (show strip (strip (sh.stripScreenPrefixes session user)) ≠ [] by
      rw [strip_strip]; exact huser)
  rw [strip_strip] at hpush
  simp only [StoreOp.untrimmed, hne, Bool.false_eq_true, if_false]
  rw [SessionHandler.normalizeUserUtterances, hpush]
  unfold recordTurn
  dsimp only
  by_cases hreply : strip reply = []
  · simp [hreply]
  · have hreply' : (strip reply).isEmpty = false := by simpa using hreply
    rw [if_neg hreply, hreply',
      appendChatMessageToList_push sh.history hchat _ .assistant
        (show strip (strip reply) ≠ [] by rw [strip_strip]; exact hreply), strip_strip]
    rfl

theorem windowed_commit {session : SessionState} {whole : List ChatMessage}
    (h : Windowed (HistoryController.chatMessages session) whole) (a : Commit) :
    Windowed (HistoryController.chatMessages (sh.appendChatTurn session a.user a.reply))
      (recordCommit sh session whole a) := by
  unfold recordCommit
  dsimp only
  by_cases huser : strip (sh.stripScreenPrefixes session a.user) = []
  · have hsilent : (StoreOp.appendChatTurn a.user a.reply).writes sh session = false := by
      simp [StoreOp.writes, SessionHandler.normalizeUserUtterances, huser]
    have hsame := apply_of_not_writes hchat hsilent
    rw [if_pos huser]
    exact (show HistoryController.chatMessages (sh.appendChatTurn session a.user a.reply)
      = HistoryController.chatMessages session from hsame) ▸ h
  · have hclean : Clean (strip (sh.stripScreenPrefixes session a.user)) := clean_strip huser
    rw [if_neg huser, appendChatTurn_chatMessages hchat huser, untrimmed_recordTurn hchat huser]
    exact ⟨recent_trimChatMessages sh (recent_recordTurn h.recent _)
      (recordTurn_canonical h.stored hclean) none none, recordTurn_canonical h.canonical hclean⟩

omit hchat in
/-- A finished turn leaves the screen prefixes alone. -/
theorem appendChatTurn_prefixes (session : SessionState) (user reply : Text) :
    SamePrefixes (sh.appendChatTurn session user reply) session := by
  have htrim : ∀ (s : SessionState) (importMode : Bool),
      SamePrefixes (sh.history.trimChatStoreEager s importMode) s := by
    intro s importMode
    unfold HistoryController.trimChatStoreEager
    split
    · exact ⟨rfl, rfl⟩
    · split <;> exact ⟨rfl, rfl⟩
  unfold SessionHandler.appendChatTurn HistoryController.appendChatResponse
  dsimp only
  split
  · exact ⟨rfl, rfl⟩
  · obtain ⟨hcheck, hchecked⟩ := htrim (if (strip reply).isEmpty then
      sh.history.appendChatMessage (sh.history.syncModeStorage session) Role.user.name
        (strip (sh.normalizeUserUtterances session user none).1)
      else sh.history.appendChatMessage
        (sh.history.appendChatMessage (sh.history.syncModeStorage session) Role.user.name
          (strip (sh.normalizeUserUtterances session user none).1)) Role.assistant.name
        (strip reply)) false
    refine ⟨hcheck.trans ?_, hchecked.trans ?_⟩ <;> split <;> rfl

theorem windowed_commits {session s : SessionState} {whole : List ChatMessage}
    (h : Windowed (HistoryController.chatMessages s) whole) (hprefixes : SamePrefixes s session)
    (words : Text) (appends : List (Text × Text)) :
    Windowed (HistoryController.chatMessages (commitAppends sh s appends))
      ((appends.map fun a => { words := words, user := a.1, reply := a.2 : Commit }).foldl
        (recordCommit sh session) whole) := by
  induction appends generalizing s whole with
  | nil => exact h
  | cons a appends ih =>
      have hone := windowed_commit hchat h { words := words, user := a.1, reply := a.2 }
      have hsame : SamePrefixes (sh.appendChatTurn s a.1 a.2) s := appendChatTurn_prefixes s a.1 a.2
      have hcommit : recordCommit sh s = recordCommit sh session := by
        funext whole a
        simp only [recordCommit, stripScreenPrefixes_congr sh hprefixes]
      rw [hcommit] at hone
      exact ih hone ⟨hsame.1.trans hprefixes.1, hsame.2.trans hprefixes.2⟩

end Commits

/-! ## Starting -/

theorem startHistory_canonical (lower : Lower) (msg : Dict Text Json) :
    Canonical (startHistory lower msg) := by
  unfold startHistory
  split
  · exact (importInv_parse lower _).canonical
  · exact canonical_nil

section Start

variable {deps : Deps} (hchat : deps.sh.historyConfig.deployChat = true)
include hchat

/-- An import is trimmed like any other write. -/
theorem windowed_import {freshId : Nat → TurnId} {session : SessionState}
    {ms : List ChatMessage} (h : Canonical ms) (toolTurns : Option (List HistoryTurn)) :
    Windowed (HistoryController.chatMessages (deps.sh.setModeHistories freshId session
      (some (ms.map ChatMessage.toImported)) toolTurns)) ms := by
  have hwrites : (StoreOp.setModeHistories freshId (some (ms.map ChatMessage.toImported))
      toolTurns).writes deps.sh session = true := rfl
  have hsame := apply_of_writes hchat hwrites
  have himported : deps.sh.history.buildImportedChatMessages (ms.map ChatMessage.toImported) = ms :=
    buildImportedChatMessages_of_canonical hchat h
  simp only [StoreOp.apply, StoreOp.untrimmed, Option.getD_some, himported] at hsame
  rw [HistoryController.chatMessages, hsame, Option.getD_some]
  exact ⟨recent_trimChatMessages deps.sh (Recent.refl ms) h _ _, h⟩

theorem windowed_resolveHistory {freshId : Nat → TurnId} {session : SessionState}
    {whole : List ChatMessage} (h : Windowed (HistoryController.chatMessages session) whole)
    (msg : Dict Text Json) (hsome : session.chatHistoryMessages.isSome = true) :
    Windowed (HistoryController.chatMessages (resolveHistory deps.sh freshId session msg))
      (if whole.isEmpty then startHistory deps.sh.lower msg else whole) := by
  have hsync : ∀ s : SessionState, HistoryController.chatMessages (deps.sh.getChatMessages s).1
      = HistoryController.chatMessages s :=
    fun s => (deps.sh.history.syncModeStorage_writesTool s).chatMessages (noChat_of_deployed hchat s)
  have hcount : historyTurnCount session = (HistoryController.chatMessages session).length := by
    obtain ⟨ms, hms⟩ := Option.isSome_iff_exists.mp hsome
    simp [historyTurnCount, HistoryController.chatMessages, hms]
  unfold resolveHistory
  rw [hcount]
  split
  · -- there is a history, so the conversation has begun
    rename_i hpos
    have hne : whole.isEmpty = false := by
      cases whole with
      | nil =>
          have hnil : HistoryController.chatMessages session = [] :=
            List.eq_nil_of_suffix_nil h.recent.suffix
          rw [hnil] at hpos
          cases hpos
      | cons m whole => rfl
    rw [hsync, hne]
    exact h
  · rename_i hzero
    have hnil : HistoryController.chatMessages session = [] :=
      List.eq_nil_of_length_eq_zero (by omega)
    have hempty : whole = [] := (hnil ▸ h.recent).eq_nil
    subst hempty
    have hcanonical := startHistory_canonical deps.sh.lower msg
    simp only [List.isEmpty_nil, if_true]
    split
    · rename_i items hitems
      have hstart : startHistory deps.sh.lower msg = parseHistoryForChat deps.sh.lower items := by
        rw [startHistory, hitems]
      rw [hstart] at hcanonical ⊢
      rw [hsync]
      simp only [hchat, Bool.true_and, Bool.not_true, Bool.and_false, Bool.false_eq_true, if_false]
      split <;> exact windowed_import hchat hcanonical _
    · rename_i hnone
      have hstart : startHistory deps.sh.lower msg = [] := by
        unfold startHistory
        split
        · rename_i items hitems
          exact absurd hitems (hnone items)
        · rfl
      rw [hsync, hstart]
      exact h

/-- What fits the context at the start is the last turns of what was there. -/
theorem windowed_fitStart {session session' : SessionState} {whole : List ChatMessage}
    (h : Windowed (HistoryController.chatMessages session) whole) {staticPrefix runtimeText : Text}
    (hfit : deps.sh.fitStartChatHistory session staticPrefix runtimeText = .ok session') :
    Windowed (HistoryController.chatMessages session') whole := by
  have hsync : HistoryController.chatMessages (deps.sh.getChatMessages session).1
      = HistoryController.chatMessages session :=
    (deps.sh.history.syncModeStorage_writesTool session).chatMessages
      (noChat_of_deployed hchat session)
  have hread : (deps.sh.getChatMessages session).2 = HistoryController.chatMessages session := hsync
  unfold SessionHandler.fitStartChatHistory at hfit
  simp only [hchat, Bool.not_true, Bool.false_eq_true, if_false, hread] at hfit
  split at hfit
  · cases hfit
  · split at hfit
    · cases hfit
      rw [hsync]
      exact h
    · split at hfit
      · cases hfit
      · rename_i fit hok
        split at hfit
        · cases hfit
        · rename_i hne
          cases hfit
          have hexact : HistoryController.chatMessages (deps.sh.history.setExactChatMessages
              (deps.sh.getChatMessages session).1 fit.historyMessages) = fit.historyMessages := by
            simp [HistoryController.setExactChatMessages, HistoryController.chatMessages, hchat]
          have hclean := h.stored.clean
          obtain ⟨k, hk⟩ := (fittedPrompt_of_fit hok).history
          rw [copyChatMessages_of_allClean hclean] at hk
          have hlt : k < (groupChatTurns (HistoryController.chatMessages session)).length := by
            by_contra hge
            rw [List.drop_eq_nil_of_le (Nat.not_lt.mp hge)] at hk
            exact hne (by rw [hk]; rfl)
          have hrecent := Recent.of_drop
            (groupChatTurns_inv (HistoryController.chatMessages session)).1 hlt
          rw [flatten_groupChatTurns hclean, ← hk] at hrecent
          rw [hexact]
          exact ⟨hrecent.trans h.recent, h.canonical⟩

theorem windowed_bootstrap {freshId : Nat → TurnId} {session : SessionState}
    {whole : List ChatMessage} (h : Windowed (HistoryController.chatMessages session) whole)
    (msg : Dict Text Json) :
    Windowed (HistoryController.chatMessages
        (bootstrapStartTurn deps.sh deps.parsing deps.promptText freshId session msg).state)
      (recordStart deps whole msg) := by
  have hinit : HistoryController.chatMessages (deps.sh.initializeSession session)
      = HistoryController.chatMessages session :=
    apply_of_not_writes hchat
      (show StoreOp.initializeSession.writes deps.sh session = false from rfl)
  have hsome : (deps.sh.initializeSession session).chatHistoryMessages.isSome = true := by
    simp [SessionHandler.initializeSession, HistoryController.initializeModeState,
      HistoryController.syncModeStorage, hchat]
  unfold bootstrapStartTurn recordStart
  dsimp only
  split
  · rename_i hraised
    rw [hraised]
    exact hinit.symm ▸ h
  · rename_i _ hraised
    rw [hraised]
    exact hinit.symm ▸ h
  · rename_i update hok
    rw [hok]
    have hupdated : Windowed (HistoryController.chatMessages
        (updateSessionConfig deps.sh.server deps.sh.countPrefixTokens
          (deps.sh.initializeSession session) update)) whole := hinit.symm ▸ h
    have hresolved := @windowed_resolveHistory _ hchat freshId _ _ hupdated msg hsome
    simp only [hchat, Bool.not_true, Bool.false_eq_true, if_false]
    split
    · exact hresolved
    · exact hresolved
    · rename_i fitted
      exact windowed_fitStart hchat hresolved fitted

end Start

/-! ## One step -/

/-- The session after a start that the limiter let through. -/
theorem handleStart_session (deps : Deps) (c : Conn deps.sanitizer) (msg : Dict Text Json) :
    (c.handleStart deps msg).session = if c.started then c.session
      else (bootstrapStartTurn deps.sh deps.parsing deps.promptText (fun i => c.nextId + i)
        c.session msg).state := by
  unfold handleStart
  split
  · rfl
  · dsimp only
    split
    · rename_i hb
      rw [hb]
      rfl
    · rename_i hb
      rw [hb, raiseLoop_session]
      rfl
    · rename_i hb
      rw [hb]
      rfl

section Step

variable {deps : Deps} (hchat : deps.sh.historyConfig.deployChat = true)
include hchat

theorem plans_chatMessages {c c' : Conn deps.sanitizer} {msg : Dict Text Json}
    (hp : Plans deps c msg c') :
    HistoryController.chatMessages c'.session = HistoryController.chatMessages c.session
      ∧ ∀ plan, c'.phase = .beginning plan →
        plan.historyMessages = HistoryController.chatMessages c.session := by
  cases hp with
  | rejected _ _ _ => exact ⟨rfl, fun _ hp => by cases hp⟩
  | planned hplan =>
      obtain ⟨hsession, hhistory, -⟩ :=
        planMessageTurn_history (noChat_of_deployed hchat _) hplan
      refine ⟨hsession, fun plan hp => ?_⟩
      cases hp
      exact hhistory

/-- The handler touches the store at a start only. -/
theorem loopSteps_chatMessages {c c' : Conn deps.sanitizer} {label : Label}
    (hl : LoopSteps deps c label c') (hlabel : ∀ msg now, label ≠ .recv (.start msg) now) :
    HistoryController.chatMessages c'.session = HistoryController.chatMessages c.session := by
  cases sessionMoves_of_loop hl with
  | requests hw => exact hw.chatMessages
  | planned hw hplan =>
      exact (planMessageTurn_history (noChat_of_deployed hchat _) hplan).1.trans hw.chatMessages
  | started hstart _ _ => exact absurd hstart (hlabel _ _)

/-- **A message is planned with the store of the moment.** -/
theorem planned_chatMessages {c c' : Conn deps.sanitizer} {label : Label} {plan : TurnPlan}
    (hs : c.step deps label = some c') (hbegins : c.phase.begins = false)
    (hp : c'.phase = .beginning plan) :
    plan.historyMessages = HistoryController.chatMessages c.session := by
  have hstays : c'.phase ≠ c.phase := by
    intro heq
    rw [← heq, hp] at hbegins
    cases hbegins
  rcases step_cases hs with ⟨rfl, rfl⟩ | ⟨id, event, rfl, ht⟩ | hl
  · exact absurd rfl hstays
  · cases ht with
    | streamed _ _ _ _ | ran _ _ _ => exact absurd rfl hstays
  · cases hl with
    | raised hr =>
        obtain ⟨phase, hphase, heq⟩ := raiseLoop_cases deps.sh.lower ‹_› ‹_›
        rw [heq] at hp
        rcases hphase with rfl | rfl <;> cases hp
    | pong _ => exact absurd rfl hstays
    | messagePlans _ _ _ hplan => exact (plans_chatMessages hchat hplan).2 plan hp
    | abortedPlans _ hplan =>
        exact ((plans_chatMessages hchat hplan).2 plan hp).trans
          (cleanupSessionRequests_writes _ _ _).chatMessages
    | cancelled _ =>
        dsimp only at hp
        split at hp <;> cases hp
    | began hfrom => rw [hfrom] at hbegins; cases hbegins
    | @replied _ next _ _ _ _ => cases next <;> cases hp
    | answered _ _ | ending _ | hangup _ | cancelling _ | unstarted _ _ _ | internalReplied _
    | closedEnd _ | engineAborted _ | stopped _ | stoppedStateless _ | markedClosed _
    | disconnected _ | closed _ | messageAborts _ _ _ | startRefused _ _ _
    | startRejected _ _ _ _ _ _ | startAnswered _ _ _ | abortedConfirms _ | abortedCloses _
    | tracked _ => cases hp

theorem windowed_start {c c' : Conn deps.sanitizer} {msg : Dict Text Json} {now : ℚ}
    {whole : List ChatMessage}
    (h : Windowed (HistoryController.chatMessages c.session) whole)
    (hs : c.step deps (.recv (.start msg) now) = some c') :
    Windowed (HistoryController.chatMessages c'.session)
      (c.record deps (.recv (.start msg) now) whole) := by
  cases hp : c.phase with
  | receiving =>
      have hhandle : c' = c.handle deps (.start msg) now := by
        simpa [step, loopStep, hp] using hs.symm
      rw [hhandle]
      unfold handle
      dsimp only
      cases ha : (c.messageLimiter.consume now).2 with
      | false =>
          simp only [Bool.false_eq_true, if_false]
          rw [record, show c.startOf (.recv (.start msg) now) = none by simp [startOf, hp, ha]]
          exact h
      | true =>
          simp only [if_true]
          rw [handleStart_session]
          cases hst : c.started with
          | true =>
              rw [record, show c.startOf (.recv (.start msg) now) = none by simp [startOf, hp, hst]]
              exact h
          | false =>
              rw [record,
                show c.startOf (.recv (.start msg) now) = some msg by simp [startOf, hp, ha, hst]]
              exact windowed_bootstrap hchat h msg
  | _ => simp [step, loopStep, hp] at hs

/-- **Preserved by every step.** -/
theorem windowed_step {c c' : Conn deps.sanitizer} {label : Label} {whole : List ChatMessage}
    (h : Windowed (HistoryController.chatMessages c.session) whole)
    (hs : c.step deps label = some c') :
    Windowed (HistoryController.chatMessages c'.session) (c.record deps label whole) := by
  have hloop : (∀ msg now, label ≠ .recv (.start msg) now) → c.startOf label = none →
      c.commits label = [] → LoopSteps deps c label c' →
      Windowed (HistoryController.chatMessages c'.session) (c.record deps label whole) := by
    intro hlabel hstart hcommits hl
    rw [loopSteps_chatMessages hchat hl hlabel, record, hstart, hcommits]
    exact h
  cases label with
  | task id event =>
      cases taskSteps_of_taskStep hs with
      | @streamed t turn turn' event now ht _ hp hstep =>
          have hcommits := windowed_commits hchat h ⟨rfl, rfl⟩ (t.plan.chatUserUtt.getD [])
            (newAppends turn.run turn'.run)
          have hrecord : c.record deps (.task id (.chain event now)) whole
              = ((newAppends turn.run turn'.run).map fun a =>
                  { words := t.plan.chatUserUtt.getD [], user := a.1, reply := a.2 : Commit }).foldl
                    (recordCommit deps.sh c.session) whole := by
            simp [record, startOf, Conn.commits, ht, Task.commits, hp, hstep]
          rw [hrecord]
          exact hcommits
      | @ran t event session phase ht _ hrun =>
          have hsame : HistoryController.chatMessages session
              = HistoryController.chatMessages c.session :=
            runTask_chatMessages (noChat_of_deployed hchat _) hrun
          have hquiet : ∀ turn, t.phase ≠ .streaming turn := by
            intro turn hp
            rw [hp, runTask_streaming] at hrun
            cases hrun
          have hcommits : c.commits (.task id event) = [] := by
            cases event with
            | chain event now =>
                simp only [Conn.commits, ht, Option.map_some, Option.getD_some]
                unfold Task.commits
                split
                · rename_i turn hp
                  exact absurd hp (hquiet turn)
                · rfl
            | _ => rfl
          have hrecord : c.record deps (.task id event) whole = whole := by
            show (c.commits (.task id event)).foldl _ whole = whole
            rw [hcommits]
            rfl
          rw [hrecord]
          exact (show HistoryController.chatMessages session
            = HistoryController.chatMessages c.session from hsame) ▸ h
  | watchdog =>
      cases hs
      exact h
  | recv msg now =>
      cases msg with
      | start msg => exact windowed_start hchat h hs
      | message _ | cancel | ping | pong | endSession =>
          exact hloop (fun _ _ h => by cases h) rfl rfl (loopSteps_of_loopStep hs)
  | recvInvalid _ | recvFailed _ | parseFailed _ | sent _ | closed _ | engineAborted _ | resume =>
      exact hloop (fun _ _ h => by cases h) rfl rfl (loopSteps_of_loopStep hs)

end Step

/-! ## Every run -/

/-- What is fitted into a prompt is the last turns of the plan's history. -/
theorem fitPlanPrompt_groups {sh : SessionHandler} {tok : HfTokenizer} {plan : TurnPlan}
    {chatUserUtt : Text} {fit : PromptFitResult}
    (h : fitPlanPrompt sh tok plan chatUserUtt = .ok fit) :
    groupChatTurns fit.historyMessages <:+ groupChatTurns plan.historyMessages := by
  have hsame : groupChatTurns (copyChatMessages plan.historyMessages)
      = groupChatTurns plan.historyMessages := by
    rw [groupChatTurns_eq, groupChatTurns_eq, copyChatMessages_copy]
  obtain ⟨k, hk⟩ := (fittedPrompt_of_fit h).history
  rw [hsame, ← flattenChatTurns_drop] at hk
  rw [hk, groupChatTurns_flatten_drop]
  exact List.drop_suffix k _

/--
**The model is shown the end of the conversation.** In a chat deployment, over every sequence of
messages, sends, cancellations, and steps of the turns' tasks, whatever was trimmed on the way:

* the conversation, untrimmed, has the shape of a store;
* the store is its last turns, each whole, and ends as it does;
* a message is planned with the store of that moment, and any prompt fitted for the plan has the
  last turns of the conversation for its history.
-/
theorem chatStore_windowed (deps : Deps) (hchat : deps.sh.historyConfig.deployChat = true)
    (clientId : Text) (labels : List Label) (c : Conn deps.sanitizer)
    (h : Lts.exec (Conn.step deps) (Conn.init deps.sanitizer deps.sh.server clientId) labels
      = some c) :
    let whole :=
      Conn.transcript deps (Conn.init deps.sanitizer deps.sh.server clientId) labels
    let stored := HistoryController.chatMessages c.session
    Canonical whole
      ∧ groupChatTurns stored <:+ groupChatTurns whole
      ∧ stored.getLast? = whole.getLast?
      ∧ ∀ label c' plan, c.step deps label = some c' → c.phase.begins = false →
          c'.phase = .beginning plan →
          plan.historyMessages = stored
            ∧ ∀ tok chatUserUtt fit, fitPlanPrompt deps.sh tok plan chatUserUtt = .ok fit →
              groupChatTurns fit.historyMessages <:+ groupChatTurns whole := by
  intro whole stored
  have hinv : Windowed stored whole :=
    Lts.history_inv (I := fun c whole => Windowed (HistoryController.chatMessages c.session) whole)
      (fun _ _ _ _ hi hs => windowed_step hchat hi hs)
      ⟨Recent.refl [], canonical_nil⟩ h
  have hgroups := recent_groups hinv.recent hinv.canonical.clean
  refine ⟨hinv.canonical, hgroups, hinv.recent.getLast?, ?_⟩
  intro label c' plan hs hbegins hp
  have hplanned : plan.historyMessages = stored := planned_chatMessages hchat hs hbegins hp
  exact ⟨hplanned, fun tok chatUserUtt fit hfit =>
    (hplanned ▸ fitPlanPrompt_groups hfit).trans hgroups⟩

theorem chatStore_windowed_twoTurns :
    ∃ c, Lts.exec (Conn.step .unlimited) sampleConn twoTurns = some c
      ∧ Conn.transcript .unlimited sampleConn twoTurns
        = [⟨.user, "hello".toList⟩, ⟨.assistant, "Hi".toList⟩]
      ∧ groupChatTurns (HistoryController.chatMessages c.session)
        <:+ groupChatTurns (Conn.transcript .unlimited sampleConn twoTurns) := by
  obtain ⟨c, hc⟩ : ∃ c, Lts.exec (Conn.step .unlimited) sampleConn twoTurns = some c :=
    Option.isSome_iff_exists.mp (by decide +kernel)
  have hwindowed := chatStore_windowed .unlimited (by decide) "client".toList twoTurns c hc
  exact ⟨c, hc, by decide +kernel, hwindowed.2.1⟩

end YapInference
