import YapInference.Proof.Tracking

/-!
# What the handler leaves behind

The session is created inside `run_message_loop` and reaches the cleanup as its return
value, so an exception that leaves the loop leaves without it. `Unwound` says where such a
run is: it finalizes without a state, and nothing cancels its task or closes its session.
Every other run goes through `abort_session_requests` and `mark_session_closed`. The slot
is released on both ways.
-/

namespace YapInference

open Py Conn

variable {S : Sanitizer}

/-- An exception left the loop. -/
def Conn.raisedOut (c : Conn S) : Prop := ∃ e, LoopEvent.loopRaised e ∈ c.log

/-- The phases of a handler that finalizes without a state. -/
def LoopPhase.stateless : LoopPhase → Bool
  | .replyingInternal | .stopping false => true
  | _ => false

/-- **What is asked of a handler that returned.** -/
structure CleanedUp (c : Conn S) : Prop where
  /-- The in-flight task, if any, was asked to cancel. -/
  tasks : NoneLive c
  lifecycle : c.session.lifecycleState = .closed
  slot : c.slotHeld = false ∧ c.slotReleases = 1

/-- The slot is held until the handler returns, and released once. -/
def SlotHeldUntilReturn (c : Conn S) : Prop :=
  (c.phase ≠ .returned → c.slotHeld = true ∧ c.slotReleases = 0)
    ∧ (c.phase = .returned → c.slotHeld = false ∧ c.slotReleases = 1)

/-- Where a run is, by whether an exception left its loop. -/
structure Unwound (c : Conn S) : Prop where
  slot : SlotHeldUntilReturn c
  /-- After an exception: no way back, and no close. -/
  raised : c.raisedOut → (c.phase.stateless = true ∨ c.phase.disconnects = true)
    ∧ c.session.lifecycleState ≠ .closed
  /-- Without one: only through the close. -/
  clean : ¬ c.raisedOut → c.phase.stateless = false
    ∧ (c.phase.disconnects = true → c.session.lifecycleState = .closed)

theorem unwound_init (cfg : ServerConfig) (clientId : Text) : Unwound (Conn.init S cfg clientId) where
  slot := ⟨fun _ => ⟨rfl, rfl⟩, nofun⟩
  raised := fun ⟨_, h⟩ => absurd h (by simp [Conn.init])
  clean := fun _ => ⟨rfl, nofun⟩

/-- Only an exception leaves the handler without its state. -/
theorem Unwound.raisedOut_of_stateless {c : Conn S} (h : Unwound c)
    (hp : c.phase.stateless = true) : c.raisedOut := by
  by_contra hn
  rw [(h.clean hn).1] at hp
  cases hp

/-! ## An exception leaves the loop -/

theorem planTurn_escaped {deps : Deps} {c : Conn deps.sanitizer} {msg : Dict Text Json} {e : Exc}
    (h : planMessageTurn deps.sh deps.parsing c.planIds c.session msg = .escaped e) :
    c.planTurn deps msg = (c.drawn 2).raiseLoop deps.sh.lower e := by
  unfold planTurn
  dsimp only
  split
  · rename_i hp; exact absurd (h.symm.trans hp) nofun
  · rename_i e' hp
    obtain rfl := PlanResult.escaped.inj (h.symm.trans hp)
    rfl
  · rename_i hp; exact absurd (h.symm.trans hp) nofun

theorem handleStart_escaped {deps : Deps} {c : Conn deps.sanitizer} {msg : Dict Text Json}
    {session : SessionState} {e : Exc} (hs : c.started = false)
    (h : bootstrapStartTurn deps.sh deps.parsing deps.promptText (fun i => c.nextId + i) c.session
      msg = .escaped session e) :
    c.handleStart deps msg = (c.handled msg session).raiseLoop deps.sh.lower e := by
  unfold handleStart
  split
  · rename_i hs'; exact absurd (hs.symm.trans hs') nofun
  · dsimp only
    split
    · rename_i hb; exact absurd (h.symm.trans hb) nofun
    · rename_i session' e' hb
      obtain ⟨rfl, rfl⟩ := StartResult.escaped.inj (h.symm.trans hb)
      rfl
    · rename_i hb; exact absurd (h.symm.trans hb) nofun

theorem handleMessage_escaped {deps : Deps} {c : Conn deps.sanitizer} {msg : Dict Text Json}
    {e : Exc} (hs : c.started = true) (hr : hasRunningTask c.taskDone c.session = false)
    (h : planMessageTurn deps.sh deps.parsing c.planIds c.session msg = .escaped e) :
    c.handleMessage deps msg = (c.dispatched.drawn 2).raiseLoop deps.sh.lower e := by
  unfold handleMessage
  split
  · rename_i hs'; exact absurd hs' (by simp [hs])
  · dsimp only
    split
    · rename_i hr'; exact absurd (hr.symm.trans hr') nofun
    · exact @planTurn_escaped deps c.dispatched msg e h

/-- An exception that leaves the loop is what the step does. -/
theorem raisesOut_step {deps : Deps} {c c₁ : Conn deps.sanitizer} {label : Label} {e : Exc}
    (h : RaisesOut deps c label c₁ e) :
    c.step deps label = some (c₁.raiseLoop deps.sh.lower e) := by
  have hrecv : ∀ msg now, c.phase = .receiving →
      c.step deps (.recv msg now) = some (c.handle deps msg now) := by
    intro msg now hp
    simp [step, loopStep, hp]
  cases h with
  | received hp he => simp [step, loopStep, hp, he]
  | parsed hp => simp [step, loopStep, hp]
  | sent hp he => simp [step, loopStep, hp, he]
  | closed hp => simp [step, loopStep, hp]
  | @started msg now session e hp ha hs hb =>
      have hstart := @handleStart_escaped deps
        (c.charged (c.messageLimiter.consume now).1 c.cancelLimiter) msg session e hs hb
      rw [hrecv _ _ hp, ← hstart]
      exact congrArg some (if_pos ha)
  | @message msg now e hp ha hs hr hplan =>
      have hmessage := @handleMessage_escaped deps
        (c.charged (c.messageLimiter.consume now).1 c.cancelLimiter) msg e hs hr hplan
      rw [hrecv _ _ hp, ← hmessage]
      exact congrArg some (if_pos ha)
  | @aborted msg e hp hplan =>
      have hplanned := @planTurn_escaped deps
        { c with session := cleanupSessionRequests c.session none true } msg e hplan
      rw [← hplanned]
      simp [step, loopStep, hp, afterAbort]

/-- The events of the loop that are not its end. -/
def LoopEvent.ordinary : LoopEvent → Bool
  | .loopRaised _ => false
  | _ => true

theorem raisedOut_append {c c' : Conn S} {events : List LoopEvent}
    (hlog : c'.log = c.log ++ events) (hord : ∀ event ∈ events, event.ordinary = true) :
    c'.raisedOut ↔ c.raisedOut := by
  unfold Conn.raisedOut
  rw [hlog]
  constructor
  · intro h
    obtain ⟨e, he⟩ := h
    rcases List.mem_append.mp he with h | h
    · exact ⟨e, h⟩
    · cases hord _ h
  · intro h
    obtain ⟨e, he⟩ := h
    exact ⟨e, List.mem_append_left _ he⟩

theorem returned_disconnects {phase : LoopPhase} (h : phase.disconnects = false) :
    phase ≠ .returned := by
  intro heq
  obtain rfl := heq
  cases h

/-! ## One step -/

/-- The handler goes on inside the loop, or in an orderly cleanup. -/
theorem Unwound.advances {c c' : Conn S} (h : Unwound c)
    (hfrom : c.phase.stateless = false ∧ c.phase.disconnects = false)
    (hto : c'.phase.stateless = false ∧ c'.phase.disconnects = false)
    (hlog : ∃ events, c'.log = c.log ++ events ∧ ∀ event ∈ events, event.ordinary = true)
    (hslot : c'.slotHeld = c.slotHeld ∧ c'.slotReleases = c.slotReleases) : Unwound c' := by
  obtain ⟨events, hlog, hord⟩ := hlog
  have hraised : ¬ c'.raisedOut := by
    rw [raisedOut_append hlog hord]
    intro hr
    rcases (h.raised hr).1 with hp | hp
    · rw [hfrom.1] at hp; cases hp
    · rw [hfrom.2] at hp; cases hp
  refine ⟨⟨fun _ => ?_, fun hp => absurd hp (returned_disconnects hto.2)⟩,
    fun hr => absurd hr hraised, fun _ => ⟨hto.1, fun hd => ?_⟩⟩
  · rw [hslot.1, hslot.2]
    exact h.slot.1 (returned_disconnects hfrom.2)
  · rw [hto.2] at hd; cases hd

/-- Another party's step: the handler stays where it is. -/
theorem Unwound.stays {c c' : Conn S} (h : Unwound c) (hphase : c'.phase = c.phase)
    (hlog : c'.log = c.log)
    (hclosed : c'.session.lifecycleState = .closed ↔ c.session.lifecycleState = .closed)
    (hslot : c'.slotHeld = c.slotHeld ∧ c'.slotReleases = c.slotReleases) : Unwound c' := by
  have hraised : c'.raisedOut ↔ c.raisedOut := by unfold Conn.raisedOut; rw [hlog]
  refine ⟨?_, ?_, ?_⟩
  · unfold SlotHeldUntilReturn
    rw [hphase, hslot.1, hslot.2]
    exact h.slot
  · rw [hraised, hphase]
    exact fun hr => ⟨(h.raised hr).1, fun hc => (h.raised hr).2 (hclosed.mp hc)⟩
  · rw [hraised, hphase]
    exact fun hr => ⟨(h.clean hr).1, fun hd => hclosed.mpr ((h.clean hr).2 hd)⟩

theorem completeRequest_closed (s : SessionState) (requestId : RequestId) :
    (completeRequest s requestId).lifecycleState = .closed ↔ s.lifecycleState = .closed := by
  unfold completeRequest cleanupSessionRequests
  split
  · exact Iff.rfl
  · dsimp only
    split
    · rename_i hc; simp [hc]
    · rename_i hc; simp [hc]

theorem unwound_taskStep {deps : Deps} {c c' : Conn deps.sanitizer} {id : TaskId}
    {event : TaskEvent} (h : Unwound c) (hs : TaskSteps deps c id event c') : Unwound c' := by
  cases hs with
  | streamed _ _ _ _ =>
      refine h.stays rfl rfl ?_ ⟨rfl, rfl⟩
      show (commitAppends _ _ _).lifecycleState = _ ↔ _
      rw [(commitAppends_writes _ _ _).history.requests.lifecycle]
  | ran _ _ hrun =>
      refine h.stays rfl rfl ?_ ⟨rfl, rfl⟩
      rcases runTask_requests hrun with hreq | ⟨rfl, -⟩
      · show _ ↔ _
        exact hreq.lifecycle ▸ Iff.rfl
      · exact completeRequest_closed _ _

theorem unwound_raised {deps : Deps} {c c₁ : Conn deps.sanitizer} {label : Label} {e : Exc}
    (ht : Tracked c) (h : Unwound c) (hr : RaisesOut deps c label c₁ e) :
    Unwound (c₁.raiseLoop deps.sh.lower e) ∧ (c₁.raiseLoop deps.sh.lower e).raisedOut := by
  obtain ⟨phase, hphase, heq⟩ := raiseLoop_cases deps.sh.lower c₁ e
  have hfrom : c.phase.disconnects = false := by cases hr <;> simp [*, LoopPhase.disconnects]
  have hslot : c₁.slotHeld = c.slotHeld ∧ c₁.slotReleases = c.slotReleases := by
    cases hr <;> exact ⟨rfl, rfl⟩
  have hopen := ht.isOpen hfrom
  have hopen₁ : c₁.session.lifecycleState ≠ .closed := by
    cases hr with
    | received _ _ | parsed _ | sent _ _ | closed _ | message _ _ _ _ _ => exact hopen
    | started _ _ _ hb =>
        exact fun hc => hopen ((bootstrapStartTurn_requests hb).lifecycle.symm.trans hc)
    | aborted _ _ => exact cleanup_open hopen
  have hraised : (c₁.raiseLoop deps.sh.lower e).raisedOut := ⟨e, by rw [heq]; simp⟩
  refine ⟨?_, hraised⟩
  rw [heq] at hraised ⊢
  have hp : phase.stateless = true ∧ phase ≠ .returned := by
    rcases hphase with rfl | rfl <;> exact ⟨rfl, by simp⟩
  refine ⟨⟨fun _ => ?_, fun hret => absurd hret hp.2⟩, fun _ => ⟨Or.inl hp.1, hopen₁⟩,
    fun hn => absurd hraised hn⟩
  show c₁.slotHeld = true ∧ c₁.slotReleases = 0
  rw [hslot.1, hslot.2]
  exact h.slot.1 (returned_disconnects hfrom)

theorem plans_ordinary {deps : Deps} {c c' : Conn deps.sanitizer} {msg : Dict Text Json}
    (hp : Plans deps c msg c') :
    (∃ events, c'.log = c.log ++ events ∧ ∀ event ∈ events, event.ordinary = true)
      ∧ (c'.phase.stateless = false ∧ c'.phase.disconnects = false)
      ∧ (c'.slotHeld = c.slotHeld ∧ c'.slotReleases = c.slotReleases) := by
  cases hp with
  | rejected _ _ _ => exact ⟨⟨[], by simp [reply, drawn], by simp⟩, ⟨rfl, rfl⟩, rfl, rfl⟩
  | planned _ =>
      exact ⟨⟨_, rfl, fun e he => by rw [List.mem_singleton.mp he]; rfl⟩, ⟨rfl, rfl⟩, rfl, rfl⟩

/-- The log grows by ordinary events unless an exception leaves the loop. -/
theorem step_log {deps : Deps} {c c' : Conn deps.sanitizer} {label : Label}
    (hs : c.step deps label = some c') :
    ∃ events, c'.log = c.log ++ events
      ∧ ((∀ c₁ e, ¬ RaisesOut deps c label c₁ e) → ∀ event ∈ events, event.ordinary = true) := by
  obtain ⟨events, hlog, hsource⟩ := step_logged hs
  refine ⟨events, hlog, fun hno event he => ?_⟩
  cases hsource event he with
  | raised hr => exact absurd hr (hno _ _)
  | _ => rfl

/-- **Preserved by every step.** -/
theorem unwound_step {deps : Deps} {c c' : Conn deps.sanitizer} {label : Label} (ht : Tracked c)
    (h : Unwound c) (hs : c.step deps label = some c') : Unwound c' := by
  have hlog := step_log hs
  rcases step_cases hs with ⟨rfl, rfl⟩ | ⟨id, event, rfl, hts⟩ | hl
  · exact h.stays rfl rfl Iff.rfl ⟨rfl, rfl⟩
  · exact unwound_taskStep h hts
  · have hfrom : ∀ {phase : LoopPhase}, c.phase = phase →
        phase.stateless = false ∧ phase.disconnects = false →
        c.phase.stateless = false ∧ c.phase.disconnects = false := fun hp hq => hp ▸ hq
    -- a step that raises out is that alone; any other stays on the way to the close
    by_cases hr : ∃ c₁ e, RaisesOut deps c label c₁ e
    · obtain ⟨c₁, e, hr⟩ := hr
      obtain rfl := Option.some.inj ((raisesOut_step hr).symm.trans hs)
      exact (unwound_raised ht h hr).1
    · have hord : ∃ events, c'.log = c.log ++ events ∧ ∀ event ∈ events, event.ordinary = true := by
        obtain ⟨events, hlog, hord⟩ := hlog
        exact ⟨events, hlog, hord fun c₁ e hx => hr ⟨c₁, e, hx⟩⟩
      cases hl with
      | raised hx => exact absurd ⟨_, _, hx⟩ hr
      | answered hp _ | pong hp | ending hp | hangup hp | cancelling hp | startRefused hp _ _
      | startRejected hp _ _ _ _ _ | startAnswered hp _ _ | unstarted hp _ _
      | messageAborts hp _ _ | closed hp | closedEnd hp | engineAborted hp | abortedConfirms hp
      | abortedCloses hp | tracked hp | stopped hp =>
          refine h.advances (hfrom hp ⟨rfl, rfl⟩) ?_ hord ⟨rfl, rfl⟩
          first
            | exact ⟨rfl, rfl⟩
            | exact hfrom hp ⟨rfl, rfl⟩
      | messagePlans hp _ _ hplan =>
          obtain ⟨-, hto, hslot⟩ := plans_ordinary hplan
          exact h.advances (hfrom hp ⟨rfl, rfl⟩) hto hord hslot
      | abortedPlans hp hplan =>
          obtain ⟨-, hto, hslot⟩ := plans_ordinary hplan
          exact h.advances (hfrom hp ⟨rfl, rfl⟩) hto hord hslot
      | @replied frame next _ b hp _ =>
          cases next <;> exact h.advances (hfrom hp ⟨rfl, rfl⟩) ⟨rfl, rfl⟩ hord ⟨rfl, rfl⟩
      | @cancelled requestId next hp =>
          refine h.advances (hfrom hp ⟨rfl, rfl⟩) ?_ hord ⟨rfl, rfl⟩
          dsimp only
          split <;> exact ⟨rfl, rfl⟩
      | @began plan hp =>
          refine h.advances (hfrom hp ⟨rfl, rfl⟩) ?_ hord ?_ <;>
            (unfold beginSection; dsimp only; split <;> exact ⟨rfl, rfl⟩)
      | internalReplied hp =>
          have hraised := h.raisedOut_of_stateless (by rw [hp]; rfl)
          obtain ⟨-, hopen⟩ := h.raised hraised
          refine ⟨⟨fun _ => h.slot.1 (by simp [hp]), nofun⟩, fun _ => ⟨Or.inl rfl, hopen⟩,
            fun hn => absurd hraised hn⟩
      | stoppedStateless hp =>
          have hraised := h.raisedOut_of_stateless (by rw [hp]; rfl)
          obtain ⟨-, hopen⟩ := h.raised hraised
          refine ⟨⟨fun _ => h.slot.1 (by simp [hp]), nofun⟩, fun _ => ⟨Or.inr rfl, hopen⟩,
            fun hn => absurd hraised hn⟩
      | markedClosed hp =>
          -- `mark_session_closed` is reached with a state only, so nothing was raised
          have hnot : ¬ c.raisedOut := by
            intro hx
            have := (h.raised hx).1
            rw [hp] at this
            rcases this with h' | h' <;> cases h'
          exact ⟨⟨fun _ => h.slot.1 (by simp [hp]), nofun⟩, fun hx => absurd hx hnot,
            fun _ => ⟨rfl, fun _ => rfl⟩⟩
      | disconnected hp =>
          obtain ⟨hheld, hreleases⟩ := h.slot.1 (by simp [hp])
          refine ⟨⟨fun hne => absurd rfl hne, fun _ => ⟨rfl, ?_⟩⟩, fun hx => ⟨Or.inr rfl, ?_⟩,
            fun hn => ⟨rfl, fun _ => ?_⟩⟩
          · show (if c.slotHeld then c.slotReleases + 1 else c.slotReleases) = 1
            rw [hheld, hreleases]
            rfl
          · exact (h.raised hx).2
          · exact (h.clean hn).2 (by rw [hp]; rfl)

/-! ## Every run -/

/-- Is no exception about to leave the loop? -/
def StaysInside (deps : Deps) (c : Conn deps.sanitizer) (label : Label) : Prop :=
  ∀ c₁ e, ¬ RaisesOut deps c label c₁ e

theorem not_raisedOut_iff {deps : Deps} {clientId : Text} {labels : List Label}
    {c : Conn deps.sanitizer}
    (h : Lts.exec (Conn.step deps) (Conn.init deps.sanitizer deps.sh.server clientId) labels
      = some c) :
    ¬ c.raisedOut ↔ Lts.Meets (Conn.step deps) (StaysInside deps)
      (Conn.init deps.sanitizer deps.sh.server clientId) labels := by
  refine Lts.exec_iff_meets (J := fun _ => True) (I := fun c => ¬ c.raisedOut)
    (fun _ _ _ _ _ => trivial) (fun _ hi => hi) ?_ ?_ ?_ trivial ?_ h
  · intro s l s' _ hi hc hs
    obtain ⟨events, hlog, hord⟩ := step_log hs
    rw [raisedOut_append hlog (hord hc)]
    exact hi
  · intro s l s' _ _ hc hs hq
    unfold StaysInside at hc
    push Not at hc
    obtain ⟨c₁, e, hr⟩ := hc
    obtain rfl := Option.some.inj ((raisesOut_step hr).symm.trans hs)
    obtain ⟨phase, -, heq⟩ := raiseLoop_cases deps.sh.lower c₁ e
    exact hq ⟨e, by rw [heq]; simp⟩
  · intro s l s' _ hq hs hq'
    obtain ⟨events, hlog, -⟩ := step_log hs
    refine hq fun ⟨e, he⟩ => hq' ⟨e, ?_⟩
    rw [hlog]
    exact List.mem_append_left _ he
  · exact fun ⟨_, he⟩ => absurd he (by simp [Conn.init])

theorem unwound_run {deps : Deps} {clientId : Text} {labels : List Label} {c : Conn deps.sanitizer}
    (h : Lts.exec (Conn.step deps) (Conn.init deps.sanitizer deps.sh.server clientId) labels
      = some c) : Tracked c ∧ Unwound c :=
  Lts.exec_inv (I := fun c => Tracked c ∧ Unwound c)
    (fun _ _ _ hi hs => ⟨tracked_step hi.1 hs, unwound_step hi.1 hi.2 hs⟩)
    ⟨tracked_init _ clientId, unwound_init _ clientId⟩ h

/--
**A handler that returned has cleaned up exactly when no exception left its loop.** Over
every run of an admitted connection to its return.
-/
theorem cleanedUp_iff_staysInside (deps : Deps) (clientId : Text) (labels : List Label)
    (c : Conn deps.sanitizer)
    (h : Lts.exec (Conn.step deps) (Conn.init deps.sanitizer deps.sh.server clientId) labels
      = some c) (hreturned : c.phase = .returned) :
    CleanedUp c ↔ Lts.Meets (Conn.step deps) (StaysInside deps)
      (Conn.init deps.sanitizer deps.sh.server clientId) labels := by
  obtain ⟨ht, hu⟩ := unwound_run h
  rw [← not_raisedOut_iff h]
  constructor
  · exact fun hc hr => (hu.raised hr).2 hc.lifecycle
  · intro hn
    -- the slot is released on both ways, the close happens on this one only
    have hclosed := (hu.clean hn).2 (by rw [hreturned]; rfl)
    exact ⟨(ht.closed hclosed).2, hclosed, hu.slot.2 hreturned⟩

/-- A session that says `end` during a turn, which is cancelled. -/
def endedDuringTurn : List Label :=
  oneTurn ++ [.recv .endSession 0, .sent .ack, .closed none, .resume, .resume, .engineAborted none,
    .resume, .resume, .resume]

theorem cleanedUp_iff_staysInside_ended :
    ∃ c, Lts.exec (Conn.step (.sample true false))
        (Conn.init plainSanitizer .shipped "client".toList) endedDuringTurn = some c
      ∧ c.tasks.map Task.isLive = [false]
      ∧ (CleanedUp c ↔ Lts.Meets (Conn.step (.sample true false)) (StaysInside (.sample true false))
        (Conn.init plainSanitizer .shipped "client".toList) endedDuringTurn) := by
  have hrun : (Lts.exec (Conn.step (.sample true false))
      (Conn.init plainSanitizer .shipped "client".toList) endedDuringTurn).map
        (fun c => (c.slotHeld, c.tasks.map Task.isLive)) = some (false, [false]) := by decide +kernel
  obtain ⟨c, hc, hobs⟩ := Option.map_eq_some_iff.mp hrun
  obtain ⟨hslot, htasks⟩ := Prod.mk.inj hobs
  have hreturned : c.phase = .returned := by
    by_contra h
    have hheld := ((@unwound_run (.sample true false) _ _ _ hc).2.slot.1 h).1
    exact absurd (hheld.symm.trans hslot) (by simp)
  exact ⟨c, hc, htasks, cleanedUp_iff_staysInside (.sample true false) "client".toList
    endedDuringTurn c hc hreturned⟩

/-- A start whose temperature is an integer no float can hold. -/
def overflowingStart : List Label :=
  [.recv (.start (sampleStart [("temperature".toList, .int (10 ^ 400))])) 0, .sent .ack, .resume,
    .resume]

/-- A ping during a turn, whose answer finds the connection reset. -/
def resetDuringTurn : List Label :=
  oneTurn ++ [.recv .ping 0, .sent (.failed .connectionResetError), .resume, .resume]

/-- What an observer of a returned handler sees: is it back, is the session closed, is the
first task live, and how often was the slot released. -/
def Conn.remains (c : Conn S) : Bool × Bool × Option Bool × Nat :=
  (c.phase.disconnects, c.session.lifecycleState == .closed, c.tasks[0]?.map Task.isLive,
    c.slotReleases)

theorem not_cleanedUp_of_remains {o : Option (Conn S)} {live : Option Bool} {n : Nat}
    (h : o.map Conn.remains = some (true, false, live, n)) :
    ∃ c, o = some c ∧ c.tasks[0]?.map Task.isLive = live ∧ ¬ CleanedUp c := by
  obtain ⟨c, rfl, hr⟩ := Option.map_eq_some_iff.mp h
  obtain ⟨-, hr⟩ := Prod.mk.inj hr
  obtain ⟨hclosed, hr⟩ := Prod.mk.inj hr
  obtain ⟨hlive, -⟩ := Prod.mk.inj hr
  refine ⟨c, rfl, hlive, fun hc => ?_⟩
  rw [hc.lifecycle] at hclosed
  cases hclosed

/-- **Two handlers that return without a cleanup.** An integer overflow in validation leaves
the session open; a reset connection, noticed by a send, leaves the turn running as well. -/
theorem returned_not_cleanedUp :
    (∃ c, Lts.exec (Conn.step (.sample true false))
        (Conn.init plainSanitizer .shipped "client".toList) overflowingStart = some c
      ∧ c.tasks[0]?.map Task.isLive = none ∧ ¬ CleanedUp c)
    ∧ ∃ c, Lts.exec (Conn.step (.sample true false))
        (Conn.init plainSanitizer .shipped "client".toList) resetDuringTurn = some c
      ∧ c.tasks[0]?.map Task.isLive = some true ∧ ¬ CleanedUp c := by
  have hoverflow : (Lts.exec (Conn.step (.sample true false))
      (Conn.init plainSanitizer .shipped "client".toList) overflowingStart).map Conn.remains
      = some (true, false, none, 1) := by decide +kernel
  have hreset : (Lts.exec (Conn.step (.sample true false))
      (Conn.init plainSanitizer .shipped "client".toList) resetDuringTurn).map Conn.remains
      = some (true, false, some true, 1) := by decide +kernel
  exact ⟨not_cleanedUp_of_remains hoverflow, not_cleanedUp_of_remains hreset⟩

end YapInference
