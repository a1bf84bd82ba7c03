import YapInference.Proof.Conversation
import YapInference.Proof.StartedFlag
import YapInference.Proof.Tracking

/-!
# Barge-in and the conversation

What a message's plan remembers is the chat store when the message is planned. In a run of
orderly steps the store is the conversation as far as it has been committed, and what has not
been committed has not been shown.
-/

namespace YapInference

open Py Conn

variable {S : Sanitizer}

/-! ## The invariant -/

/-- The chat store is the conversation as far as it has been committed. -/
structure Conversed (deps : Deps) (c : Conn deps.sanitizer) : Prop where
  history : HistoryController.chatMessages c.session
    = (c.tasks.filterMap Task.committedTurn).foldl recordTurn (seedOf c.log)
  noChat : NoChat deps c.session
  tasks : ∀ (i : Nat) (t : Task deps.sanitizer), c.tasks[i]? = some t → TaskInv deps t
  /-- A turn that is not the newest shows nothing any more. -/
  silent : ∀ (i : Nat) (t : Task deps.sanitizer), c.tasks[i]? = some t → ¬ c.Newest i →
    t.streamedText = []
  planned : ∀ plan, c.phase = .beginning plan →
    plan.historyMessages = HistoryController.chatMessages c.session
      ∧ plan.deployChat = deps.sh.historyConfig.deployChat
  unstarted : c.started = false → c.tasks = []

theorem conversed_init (deps : Deps) (cfg : ServerConfig) (clientId : Text) :
    Conversed deps (Conn.init deps.sanitizer cfg clientId) where
  history := rfl
  noChat := fun _ => rfl
  tasks := fun _ _ h => absurd h (by simp [Conn.init])
  silent := fun _ _ h => absurd h (by simp [Conn.init])
  planned := nofun
  unstarted := fun _ => rfl

/-- Nothing shown is uncommitted once a message has been planned. -/
theorem Conversed.remembers {deps : Deps} {c : Conn deps.sanitizer} (h : Conversed deps c) :
    PlanRemembers c := by
  intro plan hp
  rw [(h.planned plan hp).1, h.history, Conn.conversation]
  congr 1
  refine List.filterMap_congr fun t ht => ?_
  obtain ⟨i, hi⟩ := List.getElem?_of_mem ht
  -- no turn is the newest one now, so a streaming turn has shown nothing yet
  have hsilent := h.silent i t hi (fun hn => by simp [Conn.Newest, hp, LoopPhase.begins] at hn)
  unfold Task.committedTurn
  split
  · rename_i turn hstream
    obtain ⟨-, hs⟩ := (h.tasks i t hi).streaming turn hstream
    have hnone : turn.run.ackedText = [] := by simpa [Task.streamedText, hstream] using hsilent
    rcases hs.response with hr | ⟨hr, -⟩ <;> simp [Task.shownTurn, hr, hnone]
  · rfl

/-! ## Steps of the handler -/

theorem unstarted_before {c c' : Conn S} (hkeeps : c.started = true → c'.started = true)
    (hs : c'.started = false) : c.started = false := by
  rw [← Bool.not_eq_true] at hs ⊢
  exact mt hkeeps hs

/-- The handler goes on, and the conversation with it. -/
theorem Conversed.moves {deps : Deps} {c c' : Conn deps.sanitizer} (h : Conversed deps c)
    (hkeeps : c.started = true → c'.started = true) (htasks : c'.tasks = c.tasks)
    (hchat : HistoryController.chatMessages c'.session = HistoryController.chatMessages c.session)
    (hseed : seedOf c'.log = seedOf c.log) (hto : c'.phase.begins = false) : Conversed deps c' where
  history := by rw [hchat, htasks, hseed]; exact h.history
  noChat := fun hd => hchat.trans (h.noChat hd)
  tasks := by rw [htasks]; exact h.tasks
  silent := by
    intro i t ht hn
    rw [htasks] at ht
    refine h.silent i t ht fun hn' => hn ?_
    exact ⟨by rw [htasks]; exact hn'.1, hto⟩
  planned := by
    intro plan hp
    rw [hp] at hto
    cases hto
  unstarted := by
    intro hs
    rw [htasks]
    exact h.unstarted (unstarted_before hkeeps hs)

/-- A start ran: there was no task, and the conversation begins anew. -/
theorem Conversed.handled {deps : Deps} {c c' : Conn deps.sanitizer} (h : Conversed deps c)
    (hst : c.started = false) (htasks : c'.tasks = c.tasks) (hchat : NoChat deps c'.session)
    (hseed : seedOf c'.log = HistoryController.chatMessages c'.session)
    (hto : c'.phase.begins = false) : Conversed deps c' := by
  have hnil : c'.tasks = [] := htasks.trans (h.unstarted hst)
  refine ⟨?_, hchat, ?_, ?_, ?_, fun _ => hnil⟩
  · rw [hnil, hseed]; rfl
  · intro i t ht; rw [hnil] at ht; cases ht
  · intro i t ht; rw [hnil] at ht; cases ht
  · intro plan hp
    rw [hp] at hto
    cases hto

theorem plans_conversed {deps : Deps} {c c₀ c' : Conn deps.sanitizer} {msg : Dict Text Json}
    (h : Conversed deps c) (hp : Plans deps c₀ msg c')
    (hkeeps : c.started = true → c'.started = true) (htasks : c₀.tasks = c.tasks)
    (hchat : HistoryController.chatMessages c₀.session = HistoryController.chatMessages c.session)
    (hseed : seedOf c₀.log = seedOf c.log)
    (hsilent : c'.phase.begins = true → ∀ t ∈ c.tasks, t.streamedText = []) :
    Conversed deps c' := by
  cases hp with
  | rejected _ _ _ => exact h.moves hkeeps htasks hchat hseed rfl
  | @planned session plan hplan =>
      have hc₀ : NoChat deps c₀.session := fun hd => hchat.trans (h.noChat hd)
      obtain ⟨hsession, hhistory, hdeploy⟩ := planMessageTurn_history hc₀ hplan
      have hseed' : seedOf (c₀.log ++ [.turnPlanned msg plan]) = seedOf c.log := by
        rw [seedOf_snoc]; exact hseed
      refine ⟨?_, ?_, ?_, ?_, ?_, ?_⟩
      · show HistoryController.chatMessages session = _
        rw [hsession, hchat, h.history]
        show _ = (c₀.tasks.filterMap Task.committedTurn).foldl recordTurn
          (seedOf (c₀.log ++ [.turnPlanned msg plan]))
        rw [htasks, hseed']
      · exact fun hd => hsession.trans (hc₀ hd)
      · intro i t ht
        exact h.tasks i t (htasks ▸ ht)
      · intro i t ht _
        exact hsilent rfl t (htasks ▸ List.mem_of_getElem? ht)
      · intro plan' hp'
        injection hp' with hp'
        subst hp'
        exact ⟨hhistory.trans hsession.symm, hdeploy⟩
      · intro hs
        exact htasks.trans (h.unstarted (unstarted_before hkeeps hs))

theorem taskInv_create {deps : Deps} {plan : TurnPlan}
    (h : plan.deployChat = deps.sh.historyConfig.deployChat) :
    TaskInv deps (Task.create plan) where
  plan := h
  unshown := fun _ => rfl
  streaming := fun turn hp => by cases hp

/-- `begin_request` and the creation of the task. -/
theorem conversed_began {deps : Deps} {c : Conn deps.sanitizer} (h : Conversed deps c)
    {plan : TurnPlan} (hp : c.phase = .beginning plan)
    (hkeeps : c.started = true → (c.beginSection plan).started = true) (hst : c.started = true) :
    Conversed deps (c.beginSection plan) := by
  obtain ⟨-, hdeploy⟩ := h.planned plan hp
  have hold : ∀ (i : Nat) (t : Task deps.sanitizer), c.tasks[i]? = some t → t.streamedText = [] :=
    fun i t ht => h.silent i t ht fun hn => by simp [Conn.Newest, hp, LoopPhase.begins] at hn
  by_cases hclosed : c.session.lifecycleState = .closed
  · have hsec : c.beginSection plan = { c with phase := .receiving, started := true } := by
      simp [beginSection, beginSessionRequest, hclosed]
    rw [hsec] at hkeeps ⊢
    exact h.moves hkeeps rfl rfl rfl rfl
  · have hsec : c.beginSection plan =
        { c with
          session := { c.session with
            activeRequestId := some plan.requestId, cancelRequested := false
            lifecycleState := .running }
          phase := .tracking plan.requestId c.tasks.length
          tasks := c.tasks ++ [.create plan] } := by
      simp [beginSection, beginSessionRequest, hclosed]
    have hget : ∀ (i : Nat) (t : Task deps.sanitizer),
        (c.tasks ++ [Task.create plan])[i]? = some t →
        c.tasks[i]? = some t ∨ t = Task.create plan := by
      intro i t ht
      rw [List.getElem?_append] at ht
      split at ht
      · exact Or.inl ht
      · exact Or.inr (List.mem_singleton.mp (List.mem_of_getElem? ht))
    rw [hsec]
    refine ⟨?_, h.noChat, ?_, ?_, fun _ hplan => LoopPhase.noConfusion hplan, ?_⟩
    · rw [List.filterMap_append]
      exact h.history.trans (by simp [Task.committedTurn, Task.shownTurn, Task.create])
    · intro i t ht
      rcases hget i t ht with ht | rfl
      · exact h.tasks i t ht
      · exact taskInv_create hdeploy
    · intro i t ht _
      rcases hget i t ht with ht | rfl
      · exact hold i t ht
      · rfl
    · intro hs
      rw [hst] at hs
      cases hs

/-- Cancelling a task leaves what it has shown. -/
theorem conversed_cancelSection {deps : Deps} {c : Conn deps.sanitizer} (h : Conversed deps c)
    {phase : LoopPhase} (hto : phase.begins = false) :
    Conversed deps { c.cancelSection with phase := phase } := by
  have htasks : c.cancelSection.tasks = c.tasks
      ∨ ∃ id, c.cancelSection.tasks = c.tasks.modify id Task.cancel := by
    unfold cancelSection
    dsimp only
    split
    · exact Or.inr ⟨_, rfl⟩
    · exact Or.inl rfl
  rcases htasks with htasks | ⟨id, htasks⟩
  · exact h.moves id htasks rfl rfl hto
  -- asking a task to cancel changes neither what it has shown nor what it has committed
  have hget : ∀ (i : Nat) (t : Task deps.sanitizer), c.cancelSection.tasks[i]? = some t →
      ∃ t₀, c.tasks[i]? = some t₀ ∧ (t = t₀ ∨ t = t₀.cancel) := by
    intro i t ht
    rw [htasks, List.getElem?_modify] at ht
    obtain ⟨t₀, ht₀, hmod⟩ := Option.map_eq_some_iff.mp ht
    refine ⟨t₀, ht₀, ?_⟩
    split at hmod
    · exact Or.inr hmod.symm
    · exact Or.inl hmod.symm
  refine ⟨?_, h.noChat, ?_, ?_, ?_, ?_⟩
  · refine h.history.trans ?_
    show _ = (c.cancelSection.tasks.filterMap Task.committedTurn).foldl recordTurn (seedOf c.log)
    rw [htasks, List.modify_eq_set_getElem?]
    cases ht : c.tasks[id]? with
    | none => rfl
    | some t =>
        exact congrArg (List.foldl recordTurn _)
          (filterMap_set_same (f := Task.committedTurn) (b := t.cancel) ht rfl).symm
  · intro i t ht
    obtain ⟨t₀, ht₀, rfl | rfl⟩ := hget i t ht
    · exact h.tasks i _ ht₀
    · obtain ⟨hplan, hunshown, hstreaming⟩ := h.tasks i t₀ ht₀
      exact ⟨hplan, hunshown, hstreaming⟩
  · intro i t ht hn
    have hn' : ¬ c.Newest i := by
      intro h
      obtain ⟨hlen, -⟩ := h
      refine hn ⟨?_, hto⟩
      show i + 1 = c.cancelSection.tasks.length
      rw [htasks, List.length_modify]
      exact hlen
    obtain ⟨t₀, ht₀, rfl | rfl⟩ := hget i t ht
    · exact h.silent i _ ht₀ hn'
    · exact h.silent i t₀ ht₀ hn'
  · intro plan hp
    rw [show phase = .beginning plan from hp] at hto
    cases hto
  · intro hs
    show c.cancelSection.tasks = []
    rw [htasks, h.unstarted hs, List.modify_nil]

/-- An exception leaves the loop. -/
theorem conversed_raised {deps : Deps} {c c₁ : Conn deps.sanitizer} {label : Label} {e : Exc}
    (h : Conversed deps c) (hr : RaisesOut deps c label c₁ e) :
    Conversed deps (c₁.raiseLoop deps.sh.lower e) := by
  obtain ⟨phase, hphase, heq⟩ := raiseLoop_cases deps.sh.lower c₁ e
  rw [heq]
  have hto : phase.begins = false := by rcases hphase with rfl | rfl <;> rfl
  cases hr with
  | received _ _ | parsed _ | sent _ _ | closed _ => exact h.moves id rfl rfl (seedOf_snoc _ _) hto
  | @started msg now session _ _ _ hst hb =>
      have hchat := bootstrapStartTurn_noChat deps (fun i => c.nextId + i) c.session msg
      rw [hb] at hchat
      refine h.handled hst rfl hchat ?_ hto
      exact (seedOf_snoc _ _).trans (seedOf_snoc _ _)
  | message _ _ _ _ _ =>
      exact h.moves id rfl rfl ((seedOf_snoc _ _).trans (seedOf_snoc _ _)) hto
  | aborted _ _ =>
      exact h.moves id rfl (cleanupSessionRequests_writes _ _ _).chatMessages (seedOf_snoc _ _) hto

/-- The loop does not forget that it has started. -/
theorem started_of_step {deps : Deps} {c c' : Conn deps.sanitizer} {label : Label}
    (hj : FlagPromised c) (h : c.step deps label = some c') (hs : c.started = true) :
    c'.started = true := by
  cases flagSteps_of_step hj h with
  | stays hsame _ => rw [hsame]; exact hs
  | accepts _ after _ | confirms after _ _ _ => exact after

/-- **A step of the handler keeps the store and the conversation together.** -/
theorem conversed_loop {deps : Deps} {c c' : Conn deps.sanitizer} {label : Label}
    (hj : FlagPromised c) (h : Conversed deps c) (hl : LoopSteps deps c label c')
    (hkeeps : c.started = true → c'.started = true)
    (hsilent : c.phase.begins = false → c'.phase.begins = true →
      ∀ t ∈ c.tasks, t.streamedText = []) : Conversed deps c' := by
  cases hl with
  | raised hr => exact conversed_raised h hr
  | pong _ => exact h
  | answered _ _ | ending _ | hangup _ | cancelling _ | unstarted _ _ _ | internalReplied _
  | closedEnd _ | engineAborted _ | stopped _ | stoppedStateless _ | markedClosed _
  | disconnected _ | closed _ => exact h.moves hkeeps rfl rfl rfl rfl
  | startRefused _ _ _ | messageAborts _ _ _ =>
      exact h.moves hkeeps rfl rfl (seedOf_snoc _ _) rfl
  | @startRejected msg _ _ session _ _ _ _ hst hb _ _ _ =>
      have hchat := bootstrapStartTurn_noChat deps (fun i => c.nextId + i) c.session msg
      rw [hb] at hchat
      exact h.handled hst rfl hchat (seedOf_snoc _ _) rfl
  | @startAnswered msg _ _ session _ hst hb =>
      have hchat := bootstrapStartTurn_noChat deps (fun i => c.nextId + i) c.session msg
      rw [hb] at hchat
      exact h.handled hst rfl hchat (seedOf_snoc _ _) rfl
  | messagePlans hp _ _ hplan =>
      exact plans_conversed h hplan hkeeps rfl rfl (seedOf_snoc _ _)
        (hsilent (by rw [hp]; rfl))
  | abortedPlans hp hplan =>
      exact plans_conversed h hplan hkeeps rfl (cleanupSessionRequests_writes _ _ _).chatMessages rfl
        (hsilent (by rw [hp]; rfl))
  | abortedConfirms _ | abortedCloses _ =>
      exact h.moves hkeeps rfl (cleanupSessionRequests_writes _ _ _).chatMessages rfl rfl
  | cancelled _ =>
      refine conversed_cancelSection h ?_
      split <;> rfl
  | began hp =>
      have hst := hj.phase
      rw [hp] at hst
      exact conversed_began h hp hkeeps hst
  | tracked _ => exact h.moves hkeeps rfl (attachRequestTask_writes _ _ _).chatMessages rfl rfl
  | @replied frame next _ _ _ _ =>
      cases next with
      | startAccepted =>
          refine h.moves hkeeps rfl rfl ?_ rfl
          show seedOf (c.log ++ c.starting.toList.map LoopEvent.startAccepted) = seedOf c.log
          cases c.starting with
          | none => simp
          | some msg => exact seedOf_snoc _ _
      | «continue» | setStarted _ | closeThenSet _ | endSession => exact h.moves hkeeps rfl rfl rfl rfl

/-! ## Steps of a task -/

theorem newest_moved (c : Conn S) (id : TaskId) (t : Task S) (session : SessionState) (n i : Nat) :
    (c.moved id t session n).Newest i ↔ c.Newest i := by
  show i + 1 = (c.tasks.set id t).length ∧ _ ↔ _
  rw [List.length_set]
  rfl

/-- A task takes a step that commits nothing. -/
theorem Conversed.moved {deps : Deps} {c : Conn deps.sanitizer} (h : Conversed deps c) {id : TaskId}
    {t t' : Task deps.sanitizer} (ht : c.tasks[id]? = some t) {session : SessionState} (n : Nat)
    (hchat : HistoryController.chatMessages session = HistoryController.chatMessages c.session)
    (hcommitted : t'.committedTurn = t.committedTurn) (hinv : TaskInv deps t')
    (hsilent : ¬ c.Newest id → t'.streamedText = []) : Conversed deps (c.moved id t' session n) := by
  refine ⟨?_, fun hd => hchat.trans (h.noChat hd), ?_, ?_, ?_, ?_⟩
  · show HistoryController.chatMessages session
      = ((c.tasks.set id t').filterMap Task.committedTurn).foldl recordTurn (seedOf c.log)
    rw [hchat, filterMap_set_same ht hcommitted, h.history]
  · intro i u hu
    rcases getElem?_set_cases hu with ⟨rfl, rfl⟩ | ⟨-, hu⟩
    · exact hinv
    · exact h.tasks i u hu
  · intro i u hu hn
    rw [newest_moved] at hn
    rcases getElem?_set_cases hu with ⟨rfl, rfl⟩ | ⟨-, hu⟩
    · exact hsilent hn
    · exact h.silent i u hu hn
  · intro plan hp
    obtain ⟨hhistory, hdeploy⟩ := h.planned plan hp
    exact ⟨hhistory.trans hchat.symm, hdeploy⟩
  · intro hs
    show c.tasks.set id t' = []
    rw [h.unstarted hs]
    rfl

/-- A task takes the step that commits its turn. -/
theorem Conversed.commits {deps : Deps} {c : Conn deps.sanitizer} (h : Conversed deps c)
    {id : TaskId} {t t' : Task deps.sanitizer} (ht : c.tasks[id]? = some t) {session : SessionState}
    {n : Nat} {turn : Text × Text} (hnewest : c.Newest id)
    (hchat : HistoryController.chatMessages session
      = recordTurn (HistoryController.chatMessages c.session) turn)
    (hdeploy : deps.sh.historyConfig.deployChat = true)
    (hbefore : t.committedTurn = none) (hafter : t'.committedTurn = some turn)
    (hinv : TaskInv deps t') : Conversed deps (c.moved id t' session n) := by
  refine ⟨?_, fun hd => absurd (hdeploy.symm.trans hd) (by simp), ?_, ?_, ?_, ?_⟩
  · show HistoryController.chatMessages session
      = ((c.tasks.set id t').filterMap Task.committedTurn).foldl recordTurn (seedOf c.log)
    rw [hchat, filterMap_set_last ht hnewest.1 hbefore hafter, List.foldl_append, h.history]
    rfl
  · intro i u hu
    rcases getElem?_set_cases hu with ⟨rfl, rfl⟩ | ⟨-, hu⟩
    · exact hinv
    · exact h.tasks i u hu
  · intro i u hu hn
    rw [newest_moved] at hn
    rcases getElem?_set_cases hu with ⟨rfl, rfl⟩ | ⟨-, hu⟩
    · exact absurd hnewest hn
    · exact h.silent i u hu hn
  · intro plan hp
    have hphase : c.phase = .beginning plan := hp
    simp [Conn.Newest, hphase, LoopPhase.begins] at hnewest
  · intro hs
    rw [h.unstarted hs] at ht
    cases ht

/-- What a step shows of a streaming turn, it shows of the newest one. -/
theorem newest_of_shown {deps : Deps} {c : Conn deps.sanitizer} {id : TaskId}
    {t : Task deps.sanitizer} {turn turn' : ChatTurn deps.sanitizer} {event : ChainEvent} {now : ℚ}
    (h : Conversed deps c) (hc : Orderly deps c (.task id (.chain event now)))
    (ht : c.tasks[id]? = some t) (hp : t.phase = .streaming turn)
    (hstep : turn.step (withCancelCheck c.session t.plan.requestId event) = some turn')
    (hshown : turn'.run.ackedText ≠ []) : c.Newest id := by
  by_contra hn
  have hsilent : turn.run.ackedText = [] := by
    simpa [Task.streamedText, hp] using h.silent id t ht hn
  -- it was silent before, so the step itself acknowledges a token
  rcases ChatTurn.step_ackedText hstep with heq | ⟨hack, chunk, hne, hpend⟩
  · exact hshown (heq.trans hsilent)
  · have hevent : event = .sent .ack := by
      cases event with
      | sent result => exact hack
      | _ => cases hack
    subst hevent
    refine hn (hc.showing id ?_)
    simp [Conn.shows, ht, Task.tokenInFlight, hp, hpend, hne]

/-- A streaming task takes a step. -/
theorem conversed_streamed {deps : Deps} {c : Conn deps.sanitizer} {id : TaskId}
    {t : Task deps.sanitizer} {turn turn' : ChatTurn deps.sanitizer} {event : ChainEvent} {now : ℚ}
    (h : Conversed deps c) (hc : Orderly deps c (.task id (.chain event now)))
    (ht : c.tasks[id]? = some t) (hp : t.phase = .streaming turn)
    (hstep : turn.step (withCancelCheck c.session t.plan.requestId event) = some turn') :
    Conversed deps (c.moved id
      { t with
        phase := phaseOfTurn deps.sh.lower turn'
        cancelPending := false
        response := some turn'.run }
      (commitAppends deps.sh c.session (newAppends turn.run turn'.run)) 0) := by
  obtain ⟨hplan, -, hstreaming⟩ := h.tasks id t ht
  obtain ⟨hdeploy, hstreams⟩ := hstreaming turn hp
  have hbefore : t.committedTurn = none := by simp [Task.committedTurn, hp]
  cases streamSteps_of_step deps.sh.lower hstreams hstep with
  | goesOn hphase hnext hnone =>
      rw [hphase, hnone]
      refine h.moved ht 0 rfl hbefore.symm ⟨hplan, nofun, ?_⟩ fun hn => ?_
      · intro turn₂ hp₂
        injection hp₂ with hp₂
        subst hp₂
        exact ⟨hdeploy, hnext⟩
      · by_contra hshown
        exact hn (newest_of_shown h hc ht hp hstep hshown)
  | @ended outcome hphase happends =>
      -- the task stops streaming here, so what it has shown now counts as committed
      obtain ⟨hquiet, hover⟩ := phaseOfOutcome_quiet (S := deps.sanitizer) deps.sh.lower outcome
      rw [hphase]
      have hinv : TaskInv deps
          { t with
            phase := phaseOfOutcome deps.sh.lower outcome
            cancelPending := false
            response := some turn'.run } :=
        ⟨hplan, fun hm => absurd (hover.symm.trans hm) (by simp),
          fun turn₂ hp₂ => absurd hp₂ (hquiet turn₂)⟩
      have hafter : ({ t with
            phase := phaseOfOutcome deps.sh.lower outcome
            cancelPending := false
            response := some turn'.run } : Task deps.sanitizer).committedTurn
          = if turn'.run.ackedText = [] then none
            else some (t.plan.chatUserUtt.getD [], turn'.run.ackedText) :=
        Task.committedTurn_of_quiet hquiet
      by_cases hshown : turn'.run.ackedText = []
      · rw [happends, if_pos hshown]
        refine h.moved ht 0 rfl ?_ hinv fun _ => ?_
        · rw [hafter, if_pos hshown, hbefore]
        · unfold Task.streamedText
          split
          · rename_i turn₂ hp₂; exact absurd hp₂ (hquiet turn₂)
          · rfl
      · rw [happends, if_neg hshown]
        rw [if_neg hshown] at hafter
        have hwhole := hc.committing
          { words := t.plan.chatUserUtt.getD [], user := turn.run.historyUser
            reply := turn'.run.ackedText }
          (by simp [Conn.commits, ht, Task.commits, hp, hstep, happends, hshown])
        have hrecorded := appendChatTurn_whole hdeploy hwhole
        dsimp only at hrecorded
        exact h.commits ht (newest_of_shown h hc ht hp hstep hshown) hrecorded hdeploy hbefore
          hafter hinv

theorem runTask_streaming {deps : Deps} {freshId : TurnId} {s : SessionState} {plan : TurnPlan}
    {turn : ChatTurn deps.sanitizer} (event : TaskEvent) :
    runTask deps freshId s plan (.streaming turn) event = none := by
  cases event <;> rfl

/-- A task that is not streaming takes a step. -/
theorem conversed_ran {deps : Deps} {c : Conn deps.sanitizer} {id : TaskId}
    {t : Task deps.sanitizer} {event : TaskEvent} {session : SessionState}
    {phase : TaskPhase deps.sanitizer} (h : Conversed deps c) (ht : c.tasks[id]? = some t)
    (hrun : runTask deps c.nextId c.session t.plan t.phase event = some (session, phase)) :
    Conversed deps (c.moved id { t with phase := phase, cancelPending := false } session 1) := by
  obtain ⟨hplan, hunshown, -⟩ := h.tasks id t ht
  have hleads := runTask_leads hrun
  have hbefore : t.committedTurn = t.shownTurn := by
    refine Task.committedTurn_of_quiet fun turn hp => ?_
    rw [hp, runTask_streaming] at hrun
    cases hrun
  cases phase with
  | streaming turn =>
      -- a stream begins: nothing has been shown or committed
      obtain ⟨hmay, hchat, hengine, historyUser, hinit⟩ := hleads
      have hnone := hunshown hmay
      have hrunInit : turn.run.ackedText = [] := by rw [hinit]; rfl
      refine h.moved ht 1 (runTask_chatMessages h.noChat hrun) ?_ ⟨hplan, nofun, ?_⟩
        fun _ => hrunInit
      · rw [hbefore, Task.shownTurn, hnone]
        rfl
      · intro turn₂ hp₂
        injection hp₂ with hp₂
        subst hp₂
        refine ⟨hplan.symm.trans hchat, ?_, ?_, ?_, Or.inr ⟨hnone, hrunInit⟩⟩
        · rw [ChatTurn.WellPhased, hengine, hinit]; rfl
        · rw [hinit]; exact StreamRun.runInv_init historyUser
        · intro outcome hp₂
          rw [hinit] at hp₂
          cases hp₂
  | created | routing | sendingTool _ =>
      exact h.moved ht 1 (runTask_chatMessages h.noChat hrun) hbefore.symm
        ⟨hplan, fun _ => hunshown hleads, fun _ hp => by cases hp⟩ fun _ => rfl
  | sendingToolFinal | sendingToolDone | sendingFitError | replying | completing | finished =>
      exact h.moved ht 1 (runTask_chatMessages h.noChat hrun) hbefore.symm
        ⟨hplan, fun hm => absurd hm (by simp [TaskPhase.mayStream]), fun _ hp => by cases hp⟩ fun _ => rfl

/-! ## Every run -/

/-- **Preserved by every orderly step.** -/
theorem conversed_step {deps : Deps} {c c' : Conn deps.sanitizer} {label : Label}
    (hj : FlagPromised c) (h : Conversed deps c) (hc : Orderly deps c label)
    (hs : c.step deps label = some c') : Conversed deps c' := by
  have hkeeps := started_of_step hj hs
  rcases step_cases hs with ⟨rfl, rfl⟩ | ⟨id, event, rfl, ht⟩ | hl
  · exact ⟨h.history, h.noChat, h.tasks, h.silent, h.planned, h.unstarted⟩
  · cases ht with
    | streamed ht _ hp hstep => exact conversed_streamed h hc ht hp hstep
    | ran ht _ hrun => exact conversed_ran h ht hrun
  · refine conversed_loop hj h hl hkeeps fun hfrom hto => hc.planning ?_
    simp [Conn.plansMessage, hfrom, hs, hto]

/--
**Barge-in loses no conversation in orderly runs.** Over every sequence of messages, sends,
cancellations and task steps in which no step overtakes a turn, the plan of a message carries
the conversation as the client knows it.
-/
theorem planRemembers_of_orderly (deps : Deps) (clientId : Text) (labels : List Label)
    (c : Conn deps.sanitizer)
    (h : Lts.exec (Conn.step deps) (Conn.init deps.sanitizer deps.sh.server clientId) labels
      = some c)
    (hm : Lts.Meets (Conn.step deps) (Orderly deps)
      (Conn.init deps.sanitizer deps.sh.server clientId) labels) : PlanRemembers c :=
  (Lts.exec_inv_of_meets (I := fun c => FlagPromised c ∧ Conversed deps c)
    (fun _ _ _ hi hc hs => ⟨flagPromised_step hi.1 hs, conversed_step hi.1 hi.2 hc hs⟩)
    ⟨flagPromised_init _ clientId, conversed_init deps _ clientId⟩ hm h).2.remembers

/-- A start, and a message whose turn runs until its first token is acknowledged. -/
def firstToken : List Label :=
  [.recv (.start (sampleStart [])) 0, .sent .ack, .recv (.message (utterance "hello".toList)) 0,
    .resume, .resume, .task 0 (.run 0),
    .task 0 (.chain (.output (some "Hi".toList) false 0) 0), .task 0 (.chain (.sent .ack) 0)]

/-- The turn is finished before the second message. -/
def twoTurns : List Label :=
  firstToken ++ [.task 0 (.chain .exhausted 0), .task 0 (.chain (.sent .ack) 0),
    .task 0 (.chain (.sent .ack) 0), .task 0 .complete,
    .recv (.message (utterance "bye".toList)) 0]

/-- The second message interrupts the turn, and is planned before its task has run again. -/
def bargeIn : List Label :=
  firstToken ++ [.recv (.message (utterance "bye".toList)) 0, .resume, .engineAborted none, .resume]

/-- A connection of the sample deployment, about to receive its first message. -/
def sampleConn : Conn Deps.unlimited.sanitizer :=
  Conn.init Deps.unlimited.sanitizer Deps.unlimited.sh.server "client".toList

/-- The history of the plan that is about to begin. -/
def Conn.plannedHistory (c : Conn S) : Option (List ChatMessage) :=
  match c.phase with
  | .beginning plan => some plan.historyMessages
  | _ => none

theorem twoTurns_orderly :
    Lts.Meets (Conn.step .unlimited) (Orderly .unlimited) sampleConn twoTurns := by
  decide +kernel

theorem planRemembers_of_orderly_twoTurns :
    ∃ c, Lts.exec (Conn.step .unlimited) sampleConn twoTurns = some c ∧ PlanRemembers c
      ∧ c.plannedHistory = some [⟨.user, "hello".toList⟩, ⟨.assistant, "Hi".toList⟩] := by
  have hrun : (Lts.exec (Conn.step .unlimited) sampleConn twoTurns).map Conn.plannedHistory
      = some (some [⟨.user, "hello".toList⟩, ⟨.assistant, "Hi".toList⟩]) := by decide +kernel
  obtain ⟨c, hc, hhistory⟩ := Option.map_eq_some_iff.mp hrun
  exact ⟨c, hc, planRemembers_of_orderly .unlimited "client".toList twoTurns c hc twoTurns_orderly,
    hhistory⟩

/-- **A turn shown and forgotten.** -/
theorem bargeIn_forgets :
    ∃ c plan, Lts.exec (Conn.step .unlimited) sampleConn bargeIn = some c ∧ c.phase = .beginning plan
      ∧ plan.historyMessages = []
      ∧ c.conversation = [⟨.user, "hello".toList⟩, ⟨.assistant, "Hi".toList⟩]
      ∧ ¬ PlanRemembers c := by
  have hrun : (Lts.exec (Conn.step .unlimited) sampleConn bargeIn).map
      (fun c => (c.plannedHistory, c.conversation))
      = some (some [], [⟨.user, "hello".toList⟩, ⟨.assistant, "Hi".toList⟩]) := by decide +kernel
  obtain ⟨c, hc, heq⟩ := Option.map_eq_some_iff.mp hrun
  obtain ⟨hhistory, hconversation⟩ := Prod.mk.inj heq
  cases hp : c.phase with
  | beginning plan =>
      have hnil : plan.historyMessages = [] := by simpa [Conn.plannedHistory, hp] using hhistory
      refine ⟨c, plan, hc, hp, hnil, hconversation, fun hr => ?_⟩
      have := hr plan hp
      rw [hnil, hconversation] at this
      cases this
  | _ => simp [Conn.plannedHistory, hp] at hhistory

end YapInference
