import YapInference.Proof.ShownReply
import YapInference.Proof.TaskSteps

/-!
# The conversation

What the client has said and been shown, as the connection's tasks remember it. A turn reaches
the chat store only when its task commits it, and `abort_session_requests` cancels the task of
the turn before without waiting for it, so the store may lag behind. `Orderly` says of a step
that it does not overtake a turn: the turns before have committed what they showed when a
message is planned, and show nothing after that.
-/

namespace YapInference

open Py Conn

variable {S : Sanitizer}

/-! ## The conversation -/

/-- Record a turn: the user's words, and the reply unless it is blank. -/
def recordTurn (messages : List ChatMessage) (turn : Text × Text) : List ChatMessage :=
  let messages := pushChatMessage messages { role := .user, content := turn.1 }
  if strip turn.2 = [] then messages
  else pushChatMessage messages { role := .assistant, content := strip turn.2 }

/-- The history a start left. -/
def LoopEvent.seed? : LoopEvent → Option (List ChatMessage)
  | .startHandled history => some history
  | _ => none

/-- The history the last start left. -/
def seedOf (log : List LoopEvent) : List ChatMessage :=
  (log.filterMap LoopEvent.seed?).getLast?.getD []

theorem seedOf_snoc (log : List LoopEvent) (event : LoopEvent) :
    seedOf (log ++ [event]) = event.seed?.getD (seedOf log) := by
  unfold seedOf
  cases h : event.seed? <;> simp [h]

/-- **What the client has said and been shown**, after the history of its start: every turn that
showed something, in the order the turns began. -/
def Conn.conversation (c : Conn S) : List ChatMessage :=
  (c.tasks.filterMap Task.shownTurn).foldl recordTurn (seedOf c.log)

/-- A message has been planned, and its turn is about to begin. -/
def LoopPhase.begins : LoopPhase → Bool
  | .beginning _ => true
  | _ => false

/-- **What is asked of a state**: the plan of a message carries the conversation. -/
def PlanRemembers (c : Conn S) : Prop :=
  ∀ plan, c.phase = .beginning plan → plan.historyMessages = c.conversation

/-! ## Orderly steps -/

/-- The text a turn has shown while it is streaming. -/
def Task.streamedText (t : Task S) : Text :=
  match t.phase with
  | .streaming turn => turn.run.ackedText
  | _ => []

/-- The text of the token a turn is sending. -/
def Task.tokenInFlight (t : Task S) : Text :=
  match t.phase with
  | .streaming turn =>
      match turn.run.pendingFrame with
      | some (.token chunk) => chunk
      | _ => []
  | _ => []

/-- The turn is the newest one, and no message after it has been planned. -/
def Conn.Newest (c : Conn S) (id : TaskId) : Prop :=
  id + 1 = c.tasks.length ∧ c.phase.begins = false

instance (c : Conn S) (id : TaskId) : Decidable (c.Newest id) :=
  inferInstanceAs (Decidable (_ ∧ _))

/-- The turn to which a step shows something. -/
def Conn.shows (c : Conn S) : Label → Option TaskId
  | .task id (.chain (.sent .ack) _) =>
      if ((c.tasks[id]?.map Task.tokenInFlight).getD []).isEmpty then none else some id
  | _ => none

/-- A history commit: the words the turn was planned with, and the arguments of
`append_chat_turn`. -/
structure Commit where
  words : Text
  user : Text
  reply : Text

/-- The commits a streaming task makes when its await comes back. -/
def Task.commits (t : Task S) (session : SessionState) (event : ChainEvent) : List Commit :=
  match t.phase with
  | .streaming turn =>
      match turn.step (withCancelCheck session t.plan.requestId event) with
      | some turn' => (newAppends turn.run turn'.run).map fun a =>
          { words := t.plan.chatUserUtt.getD [], user := a.1, reply := a.2 }
      | none => []
  | _ => []

/-- The commits of a step. -/
def Conn.commits (c : Conn S) : Label → List Commit
  | .task id (.chain event _) => (c.tasks[id]?.map (·.commits c.session event)).getD []
  | _ => []

/-- The words of the turn survive the budget and the screen prefixes, and nothing is trimmed. -/
structure Commit.Whole (sh : SessionHandler) (session : SessionState) (a : Commit) : Prop where
  words : a.words ≠ []
  survive : strip (sh.stripScreenPrefixes session a.user) = a.words
  untrimmed : trimChatMessages sh.historyConfig sh.chatTokenizer none none
      ((StoreOp.appendChatTurn a.user a.reply).untrimmed sh session)
    = (StoreOp.appendChatTurn a.user a.reply).untrimmed sh session

instance (sh : SessionHandler) (session : SessionState) (a : Commit) :
    Decidable (a.Whole sh session) :=
  decidable_of_iff (a.words ≠ [] ∧ strip (sh.stripScreenPrefixes session a.user) = a.words
      ∧ trimChatMessages sh.historyConfig sh.chatTokenizer none none
          ((StoreOp.appendChatTurn a.user a.reply).untrimmed sh session)
        = (StoreOp.appendChatTurn a.user a.reply).untrimmed sh session)
    ⟨fun h => ⟨h.1, h.2.1, h.2.2⟩, fun h => ⟨h.1, h.2, h.3⟩⟩

/-- The step plans a message. -/
def Conn.plansMessage (deps : Deps) (c : Conn deps.sanitizer) (label : Label) : Bool :=
  !c.phase.begins && ((c.step deps label).map (·.phase.begins)).getD false

/-- **No step overtakes a turn.** -/
structure Orderly (deps : Deps) (c : Conn deps.sanitizer) (label : Label) : Prop where
  /-- When a message is planned, no turn that has shown something is still streaming. -/
  planning : c.plansMessage deps label = true → ∀ t ∈ c.tasks, t.streamedText = []
  /-- Something is shown of the newest turn only. -/
  showing : ∀ id ∈ c.shows label, c.Newest id
  committing : ∀ a ∈ c.commits label, a.Whole deps.sh c.session

instance (deps : Deps) (c : Conn deps.sanitizer) (label : Label) :
    Decidable (Orderly deps c label) :=
  decidable_of_iff ((c.plansMessage deps label = true → ∀ t ∈ c.tasks, t.streamedText = [])
      ∧ (∀ id ∈ c.shows label, c.Newest id) ∧ ∀ a ∈ c.commits label, a.Whole deps.sh c.session)
    ⟨fun h => ⟨h.1, h.2.1, h.2.2⟩, fun h => ⟨h.1, h.2, h.3⟩⟩

/-! ## A commit records its turn -/

/-- **A commit whose words survive records the turn.** -/
theorem appendChatTurn_whole {sh : SessionHandler} {session : SessionState} {a : Commit}
    (hchat : sh.historyConfig.deployChat = true) (h : a.Whole sh session) :
    HistoryController.chatMessages (sh.appendChatTurn session a.user a.reply)
      = recordTurn (HistoryController.chatMessages session) (a.words, a.reply) := by
  have huser : strip (sh.stripScreenPrefixes session a.user) ≠ [] := h.survive.symm ▸ h.words
  rw [appendChatTurn_chatMessages hchat huser, h.untrimmed]
  have hne : (strip (sh.normalizeUserUtterances session a.user none).1).isEmpty = false := by
    simpa [SessionHandler.normalizeUserUtterances] using huser
  have hwords : strip a.words = a.words := by rw [← h.survive, strip_strip]
  have hne' : strip a.words ≠ [] := hwords.symm ▸ h.words
  -- first the user's words, then the reply unless it is blank
  have hpush := appendChatMessageToList_push sh.history hchat
    (HistoryController.chatMessages session) .user hne'
  rw [hwords] at hpush
  simp only [StoreOp.untrimmed, hne, Bool.false_eq_true, if_false]
  rw [SessionHandler.normalizeUserUtterances, h.survive, hpush]
  unfold recordTurn
  dsimp only
  by_cases hreply : strip a.reply = []
  · simp [hreply]
  · have hreply' : (strip a.reply).isEmpty = false := by simpa using hreply
    have hreplied : strip (strip a.reply) ≠ [] := by rw [strip_strip]; exact hreply
    have hpush' := appendChatMessageToList_push sh.history hchat
      (pushChatMessage (HistoryController.chatMessages session) { role := .user, content := a.words })
      .assistant hreplied
    rw [strip_strip] at hpush'
    rw [if_neg hreply, hreply', ← hpush']
    rfl

/-! ## Planning and starting -/

theorem planMessageTurn_history {sh : SessionHandler} {parsing : NumberParsing} {ids : PlanIds}
    {s s' : SessionState} {msg : Dict Text Json} {plan : TurnPlan}
    (hc : sh.historyConfig.deployChat = false → HistoryController.chatMessages s = [])
    (h : planMessageTurn sh parsing ids s msg = .planned s' plan) :
    HistoryController.chatMessages s' = HistoryController.chatMessages s
      ∧ plan.historyMessages = HistoryController.chatMessages s
      ∧ plan.deployChat = sh.historyConfig.deployChat := by
  obtain ⟨_, sampling, -, rfl, rfl⟩ := planMessageTurn_planned h
  have hsync := (sh.history.syncModeStorage_writesTool
    { s with metadata := { s.metadata with chatSampling := sampling } }).chatMessages hc
  exact ⟨hsync, hsync, rfl⟩

theorem bootstrapStartTurn_noChat (deps : Deps) (freshId : Nat → TurnId) (s : SessionState)
    (msg : Dict Text Json) :
    NoChat deps (bootstrapStartTurn deps.sh deps.parsing deps.promptText freshId s msg).state := by
  intro hd
  have hsync : ∀ s' : SessionState,
      HistoryController.chatMessages (deps.sh.history.syncModeStorage s') = [] := by
    intro s'
    simp [HistoryController.syncModeStorage, HistoryController.chatMessages, hd]
  have hinit : HistoryController.chatMessages (deps.sh.initializeSession s) = [] := hsync s
  have hresolve : ∀ s' : SessionState,
      HistoryController.chatMessages (resolveHistory deps.sh freshId s' msg) = [] := by
    intro s'
    unfold resolveHistory
    split
    · exact hsync _
    · split <;> exact hsync _
  unfold bootstrapStartTurn
  dsimp only
  split
  · exact hinit
  · exact hinit
  · simp only [hd, Bool.not_false, if_true]
    exact hresolve _

/-! ## Replacing a task -/

theorem filterMap_set_same {α β : Type} {f : α → Option β} {l : List α} {i : Nat} {a b : α}
    (h : l[i]? = some a) (hf : f b = f a) : (l.set i b).filterMap f = l.filterMap f := by
  induction l generalizing i with
  | nil => cases h
  | cons x l ih =>
      cases i with
      | zero =>
          obtain rfl : x = a := by simpa using h
          simp [List.filterMap_cons, hf]
      | succ i => simp [List.filterMap_cons, ih (by simpa using h)]

theorem filterMap_set_last {α β : Type} {f : α → Option β} {l : List α} {i : Nat} {a b : α} {y : β}
    (h : l[i]? = some a) (hi : i + 1 = l.length) (ha : f a = none) (hb : f b = some y) :
    (l.set i b).filterMap f = l.filterMap f ++ [y] := by
  have hlast : l.getLast? = some a := by
    rw [List.getLast?_eq_getElem?, ← hi]
    exact h
  obtain ⟨front, rfl⟩ := List.getLast?_eq_some_iff.mp hlast
  obtain rfl : i = front.length := by simpa using hi
  simp [ha, hb]

end YapInference
