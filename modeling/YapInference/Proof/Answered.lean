import YapInference.Proof.RateLimit
import YapInference.Proof.Tracking
import YapInference.Proof.TurnFrames
import YapInference.WebSocket.Traffic

/-!
# Every message is answered

The message loop serves one message at a time. Where it stands between two awaits says what it
still owes (`LoopPhase.Serves`), and every step of it is a step of the service: it takes a message
when it owes nothing, and what it comes to is an answer to the message it took. The background
tasks have no part in this, whatever they do to the session meanwhile.

Three ledgers go along: the frames the handler has handed over, the turns that were spawned, and
what the rate limiters have said.
-/

namespace YapInference

open Py Lts Conn Serving

variable {deps : Deps}

/-! ## What the loop owes -/

/-- What is owed for what follows an abort. -/
def AfterAbort.Owes : AfterAbort → State Ask Met → Prop
  | .plan msg, s => ∃ now, s = .owes (.message (.message msg) now true true) none
  | .confirmCancel, s => ∃ now started, s = .owes (.message .cancel now true started) none
  | .markClosed, _ => True

/-- Where the service is while the loop is in this phase. Once the loop is left, nothing more is
asked of it. -/
def LoopPhase.Serves (deps : Deps) : LoopPhase → State Ask Met → Prop
  | .receiving, s | .replying _ _, s | .closing _, s | .closingEnd, s | .tracking _ _, s =>
      s = .free
  | .abortLock _ next, s | .abortEngine next, s | .abortCleanup next, s => next.Owes s
  | .beginning plan, s => ∃ msg now met, s = .owes (.message (.message msg) now true true) met
      ∧ (ClientMessage.message msg).answer deps true met = some (.turn plan)
  | .replyingInternal, _ | .stopping _, _ | .closeLock, _ | .disconnecting, _ | .returned, _ =>
      True

/-- The service goes on to where the loop has come to. -/
def GoesOn (deps : Deps) (s : State Ask Met) (c' : Conn deps.sanitizer) : Prop :=
  ∃ s', exec (servicePolicy deps).step s c'.replies = some s' ∧ c'.phase.Serves deps s'

theorem goesOn_silent {s : State Ask Met} {c' : Conn deps.sanitizer} (hsilent : c'.replies = [])
    (hserves : c'.phase.Serves deps s) : GoesOn deps s c' :=
  ⟨s, by rw [hsilent]; rfl, hserves⟩

/-- An exception leaves the loop: the service gives up, or the peer is gone. -/
theorem goesOn_raise {s : State Ask Met} (hs : s ≠ .closed) (c : Conn deps.sanitizer) (e : Exc) :
    GoesOn deps s (c.raiseLoop deps.sh.lower e) := by
  obtain ⟨phase, hphase, heq⟩ := raiseLoop_cases deps.sh.lower c e
  rw [heq]
  rcases hphase with rfl | rfl
  · exact goesOn_silent rfl trivial
  · exact ⟨.closed, by simp [replies, exec, step_giveUp hs], trivial⟩

/-- A reply answers what is owed. -/
theorem goesOn_reply {ask : Ask} {met : Option Met} {frame : Frame}
    (h : (servicePolicy deps).answers ask met (.frame frame)) (c : Conn deps.sanitizer)
    (next : AfterReply) : GoesOn deps (.owes ask met) (c.reply frame next) :=
  ⟨.free, by simp [replies, reply, exec, step_answer_eq_some.mpr ⟨h, rfl⟩], rfl⟩

theorem answers_admitted {msg : ClientMessage} {started : Bool} {met : Option Met} {r : Reply}
    (h : msg.answer deps started met = some r) (now : ℚ) :
    (servicePolicy deps).answers (.message msg now true started) met r := h

theorem goesOn_admitted {msg : ClientMessage} {now : ℚ} {started : Bool} {met : Option Met}
    {frame : Frame} (h : msg.answer deps started met = some (.frame frame))
    (c : Conn deps.sanitizer) (next : AfterReply) :
    GoesOn deps (.owes (.message msg now true started) met) (c.reply frame next) :=
  goesOn_reply (answers_admitted h now) c next

theorem goesOn_refused (msg : ClientMessage) (now : ℚ) (started : Bool) (c : Conn deps.sanitizer) :
    GoesOn deps (.owes (.message msg now false started) none)
      (c.reply rateLimitedFrame .continue) := by
  refine goesOn_reply ?_ c .continue
  cases msg <;> rfl

/-- Planning, with what the message meets. -/
theorem goesOn_planTurn (c : Conn deps.sanitizer) (msg : Dict Text Json) (now : ℚ) :
    GoesOn deps (.owes (.message (.message msg) now true true) (some ⟨c.session, c.nextId⟩))
      (c.planTurn deps msg) := by
  unfold planTurn
  dsimp only
  split
  · rename_i error hplan
    refine goesOn_admitted ?_ _ _
    simp [ClientMessage.answer, hplan, Reply.error]
  · exact goesOn_raise (fun h => by cases h) _ _
  · rename_i session plan hplan
    refine goesOn_silent rfl ⟨msg, now, _, rfl, ?_⟩
    simp [ClientMessage.answer, hplan]

/-- A second start. -/
theorem goesOn_started {c : Conn deps.sanitizer} (h : c.started = true) (msg : Dict Text Json)
    (now : ℚ) :
    GoesOn deps (.owes (.message (.start msg) now true true) none) (c.handleStart deps msg) := by
  rw [handleStart, if_pos h]
  exact goesOn_admitted rfl _ _

/-- The first, with what it meets. -/
theorem goesOn_unstarted {c : Conn deps.sanitizer} (h : c.started = false) (msg : Dict Text Json)
    (now : ℚ) :
    GoesOn deps (.owes (.message (.start msg) now true false) (some ⟨c.session, c.nextId⟩))
      (c.handleStart deps msg) := by
  rw [handleStart, if_neg (by simp [h])]
  dsimp only
  split
  · rename_i session error hstart
    refine goesOn_admitted ?_ _ _
    simp [ClientMessage.answer, hstart, Reply.error]
  · exact goesOn_raise (fun h => by cases h) _ _
  · rename_i session hstart
    refine goesOn_admitted ?_ _ _
    simp [ClientMessage.answer, hstart]

/-- It is taken on, with what it meets. -/
def TakenOn (deps : Deps) (c : Conn deps.sanitizer) (msg : ClientMessage) (now : ℚ) : Prop :=
  ∃ s, exec (servicePolicy deps).step .free (c.asks (.recv msg now) ++ c.meets (.recv msg now))
      = some s
    ∧ GoesOn deps s (c.handle deps msg now)

theorem takenOn_start (c : Conn deps.sanitizer) (msg : Dict Text Json) (now : ℚ) :
    TakenOn deps c (.start msg) now := by
  by_cases hadmitted : (c.messageLimiter.consume now).2 = true
  · have hhandle : c.handle deps (.start msg) now
        = (c.charged (c.messageLimiter.consume now).1 c.cancelLimiter).handleStart deps msg :=
      if_pos hadmitted
    rw [TakenOn, hhandle]
    cases hstarted : c.started with
    | true =>
        refine ⟨.owes (.message (.start msg) now true true) none, ?_,
          @goesOn_started deps (c.charged (c.messageLimiter.consume now).1 _) hstarted msg now⟩
        simp only [asks, meets, admitsMessage, hadmitted, hstarted]
        rfl
    | false =>
        refine ⟨.owes (.message (.start msg) now true false) (some ⟨c.session, c.nextId⟩), ?_,
          @goesOn_unstarted deps (c.charged (c.messageLimiter.consume now).1 _) hstarted msg now⟩
        simp only [asks, meets, admitsMessage, hadmitted, hstarted]
        rfl
  · have hhandle : c.handle deps (.start msg) now
        = (c.charged (c.messageLimiter.consume now).1 c.cancelLimiter).reply rateLimitedFrame
          .continue :=
      if_neg hadmitted
    rw [Bool.not_eq_true] at hadmitted
    rw [TakenOn, hhandle]
    refine ⟨.owes (.message (.start msg) now false c.started) none, ?_, goesOn_refused ..⟩
    simp only [asks, meets, admitsMessage, hadmitted]
    rfl

theorem takenOn_message (c : Conn deps.sanitizer) (msg : Dict Text Json) (now : ℚ) :
    TakenOn deps c (.message msg) now := by
  by_cases hadmitted : (c.messageLimiter.consume now).2 = true
  · have hhandle : c.handle deps (.message msg) now
        = (c.charged (c.messageLimiter.consume now).1 c.cancelLimiter).handleMessage deps msg :=
      if_pos hadmitted
    rw [TakenOn, hhandle, handleMessage]
    cases hstarted : c.started with
    | true =>
        rw [if_neg (by simp [charged, hstarted])]
        dsimp only
        cases hrunning : hasRunningTask c.taskDone c.session with
        | true =>
            -- the turn before is aborted first, and then it is planned
            refine ⟨.owes (.message (.message msg) now true true) none, ?_, ?_⟩
            · simp only [asks, meets, admitsMessage, hadmitted, hstarted, hrunning]
              rfl
            · rw [if_pos (by exact hrunning)]
              exact goesOn_silent rfl ⟨now, rfl⟩
        | false =>
            refine ⟨.owes (.message (.message msg) now true true) (some ⟨c.session, c.nextId⟩), ?_, ?_⟩
            · simp only [asks, meets, admitsMessage, hadmitted, hstarted, hrunning]
              rfl
            · rw [if_neg (by rw [Bool.not_eq_true]; exact hrunning)]
              exact goesOn_planTurn
                (c.charged (c.messageLimiter.consume now).1 c.cancelLimiter).dispatched msg now
    | false =>
        rw [if_pos (by simp [charged, hstarted])]
        refine ⟨.owes (.message (.message msg) now true false) none, ?_, goesOn_admitted rfl _ _⟩
        simp only [asks, meets, admitsMessage, hadmitted, hstarted]
        rfl
  · have hhandle : c.handle deps (.message msg) now
        = (c.charged (c.messageLimiter.consume now).1 c.cancelLimiter).reply rateLimitedFrame
          .continue :=
      if_neg hadmitted
    rw [Bool.not_eq_true] at hadmitted
    rw [TakenOn, hhandle]
    refine ⟨.owes (.message (.message msg) now false c.started) none, ?_, goesOn_refused ..⟩
    simp only [asks, meets, admitsMessage, hadmitted]
    rfl

/-- **A message is taken on**, and answered at once or owed. -/
theorem takenOn_handle (c : Conn deps.sanitizer) (msg : ClientMessage) (now : ℚ)
    (hp : c.phase = .receiving) : TakenOn deps c msg now := by
  cases msg with
  | ping => exact ⟨_, rfl, goesOn_admitted rfl _ _⟩
  | pong =>
      refine ⟨.free, rfl, goesOn_silent ?_ ?_⟩
      · simp [replies, handle, hp]
      · simp [handle, hp, LoopPhase.Serves]
  | endSession => exact ⟨_, rfl, goesOn_admitted rfl _ _⟩
  | cancel =>
      refine ⟨_, rfl, ?_⟩
      simp only [handle, admitsMessage]
      cases (c.cancelLimiter.consume now).2 with
      | true => exact goesOn_silent rfl ⟨now, c.started, rfl⟩
      | false => exact goesOn_refused _ now _ _
  | start msg => exact takenOn_start c msg now
  | message msg => exact takenOn_message c msg now

/-! ## One step -/

/-- A turn begins, in answer to the message it was planned for. -/
theorem goesOn_began {c : Conn deps.sanitizer} (h : Tracked c) {plan : TurnPlan}
    (hp : c.phase = .beginning plan) {s : State Ask Met} (hs : c.phase.Serves deps s) :
    GoesOn deps s (c.beginSection plan) := by
  have hopen := h.isOpen (by rw [hp]; rfl)
  rw [hp] at hs
  obtain ⟨msg, now, met, rfl, hplan⟩ := hs
  have hanswers := answers_admitted hplan now
  refine ⟨.free, ?_, ?_⟩
  · simp [replies, beginSection, beginSessionRequest, hopen, Task.create, exec,
      step_answer_eq_some.mpr ⟨hanswers, rfl⟩]
  · simp [beginSection, beginSessionRequest, hopen, LoopPhase.Serves]

/-- A lock is taken, and nothing is met. -/
theorem exec_resume {c : Conn deps.sanitizer} {s : State Ask Met} (h : c.meets .resume = []) :
    exec (servicePolicy deps).step s (c.asks .resume ++ c.meets .resume) = some s := by
  rw [h]
  rfl

/-- **A step of the handler is a step of the service.** -/
theorem serves_loop {c c' : Conn deps.sanitizer} {label : Label} (h : Tracked c) {s : State Ask Met}
    (hserves : c.phase.Serves deps s) (hs : c.loopStep deps label = some c') :
    ∃ s₁, exec (servicePolicy deps).step s (c.asks label ++ c.meets label) = some s₁
      ∧ GoesOn deps s₁ c' := by
  unfold loopStep at hs
  split at hs
  · rename_i msg now hp
    injection hs with hs; subst hs
    rw [hp] at hserves
    obtain rfl : s = .free := hserves
    exact takenOn_handle c msg now hp
  · rename_i message hp
    injection hs with hs; subst hs
    rw [hp] at hserves
    obtain rfl : s = .free := hserves
    refine ⟨_, rfl, ?_⟩
    refine goesOn_reply ?_ _ _
    rfl
  · rename_i e hp
    rw [hp] at hserves
    obtain rfl : s = .free := hserves
    refine ⟨.free, rfl, ?_⟩
    split at hs
    · injection hs with hs; subst hs
      exact goesOn_silent rfl trivial
    · injection hs with hs; subst hs
      exact goesOn_raise (fun h => by cases h) _ _
  · rename_i e hp
    injection hs with hs; subst hs
    rw [hp] at hserves
    obtain rfl : s = .free := hserves
    exact ⟨.free, rfl, goesOn_raise (fun h => by cases h) _ _⟩
  · rename_i frame next result hp
    rw [hp] at hserves
    obtain rfl : s = .free := hserves
    refine ⟨.free, rfl, ?_⟩
    split at hs
    · injection hs with hs; subst hs
      cases next <;> exact goesOn_silent rfl rfl
    · injection hs with hs; subst hs
      exact goesOn_raise (fun h => by cases h) _ _
    · cases hs
  · refine ⟨s, rfl, ?_⟩
    split at hs
    · cases hs
    · injection hs with hs; subst hs
      exact goesOn_silent rfl trivial
  · rename_i started hp
    injection hs with hs; subst hs
    rw [hp] at hserves
    exact ⟨s, rfl, goesOn_silent rfl hserves⟩
  · rename_i started e hp
    injection hs with hs; subst hs
    rw [hp] at hserves
    obtain rfl : s = .free := hserves
    exact ⟨.free, rfl, goesOn_raise (fun h => by cases h) _ _⟩
  · injection hs with hs; subst hs
    exact ⟨s, rfl, goesOn_silent rfl trivial⟩
  · rename_i requestId next hp
    rw [hp] at hserves
    refine ⟨s, exec_resume (by simp [meets, hp]), ?_⟩
    dsimp only at hs
    split at hs <;> injection hs with hs <;> subst hs <;> exact goesOn_silent rfl hserves
  · rename_i next failure hp
    injection hs with hs; subst hs
    rw [hp] at hserves
    exact ⟨s, rfl, goesOn_silent rfl hserves⟩
  · rename_i next hp
    injection hs with hs; subst hs
    rw [hp] at hserves
    cases next with
    | plan msg =>
        -- the message is planned with what the abort has left
        obtain ⟨now, rfl⟩ : ∃ now, s = .owes (.message (.message msg) now true true) none := hserves
        refine ⟨.owes (.message (.message msg) now true true)
          (some ⟨cleanupSessionRequests c.session none true, c.nextId⟩), ?_, ?_⟩
        · simp only [asks, meets, hp]
          rfl
        · exact goesOn_planTurn
            { c with session := cleanupSessionRequests c.session none true } msg now
    | confirmCancel =>
        obtain ⟨now, started, rfl⟩ :
          ∃ now started, s = .owes (.message .cancel now true started) none := hserves
        exact ⟨_, exec_resume (by simp [meets, hp]), goesOn_admitted rfl _ _⟩
    | markClosed => exact ⟨s, exec_resume (by simp [meets, hp]), goesOn_silent rfl trivial⟩
  · rename_i plan hp
    injection hs with hs; subst hs
    exact ⟨s, exec_resume (by simp [meets, hp]), goesOn_began h hp hserves⟩
  · rename_i requestId task hp
    injection hs with hs; subst hs
    rw [hp] at hserves
    exact ⟨s, exec_resume (by simp [meets, hp]), goesOn_silent rfl hserves⟩
  · rename_i hp
    injection hs with hs; subst hs
    exact ⟨s, exec_resume (by simp [meets, hp]), goesOn_silent rfl trivial⟩
  · rename_i hp
    injection hs with hs; subst hs
    exact ⟨s, exec_resume (by simp [meets, hp]), goesOn_silent rfl trivial⟩
  · rename_i hp
    injection hs with hs; subst hs
    exact ⟨s, exec_resume (by simp [meets, hp]), goesOn_silent rfl trivial⟩
  · rename_i hp
    injection hs with hs; subst hs
    exact ⟨s, exec_resume (by simp [meets, hp]), goesOn_silent rfl trivial⟩
  · cases hs

/-- So is a step of anything else, which the service takes no notice of. -/
theorem serves_step {c c' : Conn deps.sanitizer} {label : Label} (h : Tracked c) {s : State Ask Met}
    (hserves : c.phase.Serves deps s) (hs : c.step deps label = some c') :
    ∃ s', exec (servicePolicy deps).step s (c.passes label c') = some s'
      ∧ c'.phase.Serves deps s' := by
  have hloop : c.loopStep deps label = some c' → ∃ s',
      exec (servicePolicy deps).step s (c.asks label ++ c.meets label ++ c'.replies) = some s'
        ∧ c'.phase.Serves deps s' := by
    intro hl
    obtain ⟨s₁, hasks, s', hreplies, hserves'⟩ := serves_loop h hserves hl
    exact ⟨s', exec_append_eq_some.mpr ⟨s₁, hasks, hreplies⟩, hserves'⟩
  cases label with
  | watchdog =>
      cases hs
      exact ⟨s, rfl, hserves⟩
  | task id event =>
      refine ⟨s, rfl, ?_⟩
      cases taskSteps_of_taskStep hs with
      | streamed _ _ _ _ | ran _ _ _ => exact hserves
  | recv _ _ | recvInvalid _ | recvFailed _ | parseFailed _ | sent _ | closed _
  | engineAborted _ | resume => exact hloop hs

/-! ## The ledgers -/

/-- What is met is on none of them. -/
theorem filterMap_meets {α : Type*} {f : Event Ask Met Reply → Option α}
    (hf : ∀ met, f (.meet met) = none) (c : Conn deps.sanitizer) (label : Label) :
    (c.meets label).filterMap f = [] := by
  unfold meets
  repeat' split
  all_goals simp [hf]

/-- **The handler hands over what it answers.** -/
theorem hands_passes (c : Conn deps.sanitizer) (label : Label) (c' : Conn deps.sanitizer) :
    (c.hands label c').filterMap Sent.byHandler
      = (c.passes label c').filterMap Reply.frameType := by
  have hasks : (c.asks label).filterMap Reply.frameType = [] := by cases label <;> rfl
  have hreplies : (c'.phase.sends.toList.map (Sent.mk .handler)).filterMap Sent.byHandler
      = c'.replies.filterMap Reply.frameType := by
    unfold replies
    split <;> simp [*, LoopPhase.sends, Sent.byHandler, Reply.frameType, Frame.type]
  have hloop : (c'.phase.sends.toList.map (Sent.mk .handler)).filterMap Sent.byHandler
      = (c.asks label ++ c.meets label ++ c'.replies).filterMap Reply.frameType := by
    rw [List.filterMap_append, List.filterMap_append, hasks, filterMap_meets (fun _ => rfl), hreplies,
      List.nil_append, List.nil_append]
  cases label with
  | watchdog => rfl
  | task id event => cases h : c'.taskSends id <;> simp [hands, h, passes, Sent.byHandler]
  | recv _ _ | recvInvalid _ | recvFailed _ | parseFailed _ | sent _ | closed _
  | engineAborted _ | resume => exact hloop

theorem map_set_same {α β : Type*} {f : α → β} {l : List α} {i : Nat} {a b : α}
    (h : l[i]? = some a) (hf : f b = f a) : (l.set i b).map f = l.map f := by
  obtain ⟨hlt, rfl⟩ := List.getElem?_eq_some_iff.mp h
  have hlt' : i < (l.map f).length := by simpa using hlt
  rw [List.map_set, hf, ← List.getElem_map f (h := hlt'), List.set_getElem_self]

/-- The handler spawns a task only where it begins a turn. -/
theorem plans_loop {c c' : Conn deps.sanitizer} {label : Label} (hs : LoopSteps deps c label c') :
    c'.tasks.map Task.plan = c.tasks.map Task.plan ++ c'.replies.filterMap Reply.turnPlan := by
  have hplans : ∀ {c₀ : Conn deps.sanitizer} {msg}, Plans deps c₀ msg c' →
      c₀.tasks = c.tasks →
      c'.tasks.map Task.plan = c.tasks.map Task.plan ++ c'.replies.filterMap Reply.turnPlan := by
    intro c₀ msg hp htasks
    rw [← htasks]
    cases hp with
    | rejected _ _ _ | planned _ => exact (List.append_nil _).symm
  cases hs with
  | @raised _ c₁ e hr =>
      obtain ⟨phase, hphase, heq⟩ := raiseLoop_cases deps.sh.lower c₁ e
      have htasks : c₁.tasks = c.tasks := by cases hr <;> rfl
      rw [heq]
      rcases hphase with rfl | rfl <;> simp [replies, htasks, Reply.turnPlan]
  | answered _ _ | ending _ | hangup _ | cancelling _ | internalReplied _ | closed _ | closedEnd _
  | engineAborted _ | abortedConfirms _ | abortedCloses _ | tracked _ | stopped _
  | stoppedStateless _ | markedClosed _ | disconnected _ => exact (List.append_nil _).symm
  | startRefused _ _ _ | unstarted _ _ _ | messageAborts _ _ _ | startAnswered _ _ _ =>
      exact (List.append_nil _).symm
  | startRejected _ _ _ _ _ _ => exact (List.append_nil _).symm
  | pong hp => simp [replies, hp]
  | messagePlans _ _ _ hplan => exact hplans hplan rfl
  | abortedPlans _ hplan => exact hplans hplan rfl
  | @replied frame next _ b _ _ => cases next <;> exact (List.append_nil _).symm
  | @cancelled requestId next hp =>
      have htasks : c.cancelSection.tasks.map Task.plan = c.tasks.map Task.plan := by
        unfold cancelSection
        dsimp only
        split
        · refine List.ext_getElem? fun i => ?_
          rw [List.getElem?_map, List.getElem?_map, List.getElem?_modify]
          cases c.tasks[i]? with
          | none => rfl
          | some t => simp only [Option.map_eq_map, Option.map_some]; split <;> rfl
        · rfl
      split <;> exact htasks.trans (List.append_nil _).symm
  | @began plan hp =>
      unfold beginSection
      dsimp only
      split
      · exact (List.append_nil _).symm
      · simp [replies, Task.create, Reply.turnPlan]

/-- **The tasks are the turns that were answered with.** -/
theorem plans_step {c c' : Conn deps.sanitizer} {label : Label} (hs : c.step deps label = some c') :
    c'.tasks.map Task.plan
      = c.tasks.map Task.plan ++ (c.passes label c').filterMap Reply.turnPlan := by
  have hasks : (c.asks label).filterMap Reply.turnPlan = [] := by cases label <;> rfl
  have hloop : c.loopStep deps label = some c' → c'.tasks.map Task.plan
      = c.tasks.map Task.plan
        ++ (c.asks label ++ c.meets label ++ c'.replies).filterMap Reply.turnPlan := by
    intro hl
    rw [List.filterMap_append, List.filterMap_append, hasks, filterMap_meets (fun _ => rfl),
      List.nil_append, List.nil_append]
    exact plans_loop (loopSteps_of_loopStep hl)
  cases label with
  | watchdog =>
      cases hs
      exact (List.append_nil _).symm
  | task id event =>
      refine Eq.trans ?_ (List.append_nil _).symm
      cases taskSteps_of_taskStep hs with
      | streamed ht _ _ _ | ran ht _ _ =>
          exact map_set_same ht rfl
  | recv _ _ | recvInvalid _ | recvFailed _ | parseFailed _ | sent _ | closed _
  | engineAborted _ | resume => exact hloop hs

/-! ## The rate limits -/

/-- A limiter of the loop, after it was asked about messages of this kind only. -/
def limiterAfter (kind : ClientMessage → Bool) (l : SlidingWindowRateLimiter) :
    Label → SlidingWindowRateLimiter
  | .recv msg now => if kind msg then (l.consume now).1 else l
  | _ => l

/-- The limiters are left alone. -/
def SameLimiters (c c' : Conn deps.sanitizer) : Prop :=
  c'.messageLimiter = c.messageLimiter ∧ c'.cancelLimiter = c.cancelLimiter

theorem raiseLoop_limiters (c : Conn deps.sanitizer) (e : Exc) :
    SameLimiters c (c.raiseLoop deps.sh.lower e) := by
  obtain ⟨phase, -, heq⟩ := raiseLoop_cases deps.sh.lower c e
  rw [heq]
  exact ⟨rfl, rfl⟩

theorem planTurn_limiters (c : Conn deps.sanitizer) (msg : Dict Text Json) :
    SameLimiters c (c.planTurn deps msg) := by
  unfold planTurn
  dsimp only
  split
  · exact ⟨rfl, rfl⟩
  · exact raiseLoop_limiters { c with nextId := c.nextId + 2 } _
  · exact ⟨rfl, rfl⟩

theorem handleStart_limiters (c : Conn deps.sanitizer) (msg : Dict Text Json) :
    SameLimiters c (c.handleStart deps msg) := by
  unfold handleStart
  split
  · exact ⟨rfl, rfl⟩
  · dsimp only
    split
    · exact ⟨rfl, rfl⟩
    · exact raiseLoop_limiters (c.handled msg _) _
    · exact ⟨rfl, rfl⟩

theorem handleMessage_limiters (c : Conn deps.sanitizer) (msg : Dict Text Json) :
    SameLimiters c (c.handleMessage deps msg) := by
  unfold handleMessage
  split
  · exact ⟨rfl, rfl⟩
  · dsimp only
    split
    · exact ⟨rfl, rfl⟩
    · exact planTurn_limiters c.dispatched msg

/-- Each limiter was asked about its own messages, if one was received. -/
def Limited (c : Conn deps.sanitizer) (label : Label) (c' : Conn deps.sanitizer) : Prop :=
  c'.messageLimiter = limiterAfter ClientMessage.isTurn c.messageLimiter label
    ∧ c'.cancelLimiter = limiterAfter ClientMessage.isCancel c.cancelLimiter label

/-- **Each limiter is asked about its own messages**, and about all of them. -/
theorem limited_step {c c' : Conn deps.sanitizer} {label : Label}
    (hs : c.step deps label = some c') : Limited c label c' := by
  have hloop : c.loopStep deps label = some c' → Limited c label c' := by
    intro hl
    unfold loopStep at hl
    split at hl
    · rename_i msg now hp
      injection hl with hl; subst hl
      cases msg with
      | ping | pong | endSession => exact ⟨rfl, rfl⟩
      | cancel =>
          simp only [handle]
          split <;> exact ⟨rfl, rfl⟩
      | start msg =>
          simp only [handle]
          split
          · exact handleStart_limiters
              (c.charged (c.messageLimiter.consume now).1 c.cancelLimiter) msg
          · exact ⟨rfl, rfl⟩
      | message msg =>
          simp only [handle]
          split
          · exact handleMessage_limiters
              (c.charged (c.messageLimiter.consume now).1 c.cancelLimiter) msg
          · exact ⟨rfl, rfl⟩
    · cases hl
      exact ⟨rfl, rfl⟩
    · split at hl
      · cases hl
        exact ⟨rfl, rfl⟩
      · cases hl
        exact raiseLoop_limiters c _
    · cases hl
      exact raiseLoop_limiters c _
    · rename_i frame next result hp
      split at hl
      · cases hl
        cases next <;> exact ⟨rfl, rfl⟩
      · cases hl
        exact raiseLoop_limiters c _
      · cases hl
    · split at hl
      · cases hl
      · cases hl
        exact ⟨rfl, rfl⟩
    · cases hl
      exact ⟨rfl, rfl⟩
    · cases hl
      exact raiseLoop_limiters c _
    · cases hl
      exact ⟨rfl, rfl⟩
    · dsimp only at hl
      split at hl <;> cases hl <;> exact ⟨rfl, rfl⟩
    · cases hl
      exact ⟨rfl, rfl⟩
    · rename_i next hp
      cases hl
      cases next with
      | plan msg =>
          exact planTurn_limiters
            { c with session := cleanupSessionRequests c.session none true } msg
      | confirmCancel | markClosed => exact ⟨rfl, rfl⟩
    · cases hl
      unfold beginSection
      dsimp only
      split <;> exact ⟨rfl, rfl⟩
    · cases hl
      exact ⟨rfl, rfl⟩
    · cases hl
      exact ⟨rfl, rfl⟩
    · cases hl
      exact ⟨rfl, rfl⟩
    · cases hl
      exact ⟨rfl, rfl⟩
    · cases hl
      exact ⟨rfl, rfl⟩
    · cases hl
  cases label with
  | watchdog =>
      cases hs
      exact ⟨rfl, rfl⟩
  | task id event =>
      cases taskSteps_of_taskStep hs with
      | streamed _ _ _ _ | ran _ _ _ => exact ⟨rfl, rfl⟩
  | recv _ _ | recvInvalid _ | recvFailed _ | parseFailed _ | sent _ | closed _
  | engineAborted _ | resume => exact hloop hs

/-- What is said of the messages of this kind is what their limiter says. -/
theorem verdicts_run (kind : ClientMessage → Bool)
    (limiterOf : Conn deps.sanitizer → SlidingWindowRateLimiter)
    (hstep : ∀ c label c', Conn.step deps c label = some c' →
      limiterOf c' = limiterAfter kind (limiterOf c) label)
    (hadmits : ∀ c msg now, kind msg = true →
      c.admitsMessage now msg = ((limiterOf c).consume now).2)
    {c c' : Conn deps.sanitizer} {labels : List Label}
    (hrun : exec (Conn.step deps) c labels = some c') :
    let verdicts := (traffic deps c labels).filterMap (Ask.verdict kind)
    verdicts.map Prod.snd = (limiterOf c).decisions (verdicts.map Prod.fst) := by
  induction labels generalizing c with
  | nil => rfl
  | cons label labels ih =>
      obtain ⟨c₁, hs, hrest⟩ := exec_cons_eq_some.mp hrun
      have ih := ih hrest
      have hlimiter := hstep c label c₁ hs
      have hreplies : c₁.replies.filterMap (Ask.verdict kind) = [] := by
        unfold replies
        split <;> simp [Ask.verdict]
      have hpasses : (c.passes label c₁).filterMap (Ask.verdict kind)
          = (c.asks label).filterMap (Ask.verdict kind) := by
        cases label with
        | task _ _ | watchdog => rfl
        | recv _ _ | recvInvalid _ | recvFailed _ | parseFailed _ | sent _ | closed _
        | engineAborted _ | resume =>
            refine (List.filterMap_append).trans ?_
            rw [List.filterMap_append, filterMap_meets (fun _ => rfl), hreplies, List.append_nil,
              List.append_nil]
      simp only [traffic] at ih ⊢
      rw [outputs_cons hs, List.filterMap_append, hpasses]
      rw [hlimiter] at ih
      cases label with
      | recv msg now =>
          cases hkind : kind msg with
          | true =>
              simp only [limiterAfter, hkind, if_true] at ih
              simp only [asks, List.filterMap_cons, List.filterMap_nil, Ask.verdict, hkind, if_true,
                List.singleton_append, List.map_cons, SlidingWindowRateLimiter.decisions,
                hadmits c msg now hkind]
              exact congrArg _ ih
          | false =>
              simp only [limiterAfter, hkind] at ih
              simpa [asks, Ask.verdict, hkind] using ih
      | task _ _ | watchdog | recvInvalid _ | recvFailed _ | parseFailed _ | sent _ | closed _
      | engineAborted _ | resume => exact ih

/-- What a rate limit says of messages at these times, in order: fewer than `limit` that were let
through are in the window. Without a limit or a window it lets everything through. -/
def RateLimited (limit : Int) (window : ℚ) (verdicts : List (ℚ × Bool)) : Prop :=
  (verdicts.map Prod.fst).Pairwise (· ≤ ·) → verdicts.map Prod.snd =
    if 0 < limit ∧ 0 < window then
      Window.answers limit.toNat window [] (verdicts.map Prod.fst)
    else verdicts.map fun _ => true

theorem decisions_disabled {l : SlidingWindowRateLimiter} (h : l.enabled = false)
    (times : List ℚ) : l.decisions times = times.map fun _ => true := by
  induction times with
  | nil => rfl
  | cons t times ih =>
      have hconsume : l.consume t = (l, true) := by simp [SlidingWindowRateLimiter.consume, h]
      rw [SlidingWindowRateLimiter.decisions, hconsume, ih]
      rfl

/-- A limiter that starts afresh keeps its rate limit. -/
theorem rateLimited_create {limit : Int} {window : ℚ} {verdicts : List (ℚ × Bool)}
    (h : verdicts.map Prod.snd
      = (SlidingWindowRateLimiter.create limit window).decisions (verdicts.map Prod.fst)) :
    RateLimited limit window verdicts := by
  intro hordered
  rw [h]
  split
  · rename_i hon
    cases htimes : verdicts.map Prod.fst with
    | nil => rfl
    | cons t times =>
        rw [htimes] at hordered
        have htracks := SlidingWindowRateLimiter.tracks_create hon.1 hon.2 t
        refine htracks.decisions_eq (by omega) hon.2
          (List.pairwise_cons.mpr ⟨fun s hs => ?_, hordered⟩)
        rcases List.mem_cons.mp hs with rfl | hs
        · exact le_rfl
        · exact (List.pairwise_cons.mp hordered).1 s hs
  · rename_i hoff
    rw [decisions_disabled, List.map_map]
    · rfl
    · have hoff : limit ≤ 0 ∨ window ≤ 0 := by
        by_contra h
        exact hoff ⟨by omega, lt_of_not_ge fun hle => h (.inr hle)⟩
      rcases hoff with h | h <;>
        simp [SlidingWindowRateLimiter.create, SlidingWindowRateLimiter.enabled, h]

/-! ## Every run -/

/--
**Every message is answered, once and in order.** However the tasks of a connection and its message
loop interleave, and whatever fails:

* what passes between the client and the loop is messages served one at a time, each by the one
  answer it wants, and at the end perhaps one that is not answered yet, or was given up by an
  exception; a start is answered by what bootstrapping makes of it in the session it meets, and a
  message by what planning makes of it in the one it meets;
* nothing else comes from the handler: the frames it hands over are these answers;
* and no turn is spawned but as an answer;
* starts and messages are let through by one rate limit, cancellations by another.
-/
theorem served_in_order {clientId : Text} {labels : List Label} {c : Conn deps.sanitizer}
    (hrun : exec (Conn.step deps) (.init deps.sanitizer deps.sh.server clientId) labels = some c) :
    let start := Conn.init deps.sanitizer deps.sh.server clientId
    let events := traffic deps start labels
    (∃ (served : List (Served (servicePolicy deps))) (s : State Ask Met)
        (rest : List (Event Ask Met Reply)),
        events = served.flatMap Served.events ++ rest ∧ Unfinished (servicePolicy deps) s rest
          ∧ (c.phase = .receiving → rest = []))
      ∧ (handedOver deps start labels).filterMap Sent.byHandler
          = events.filterMap Reply.frameType
      ∧ c.tasks.map Task.plan = events.filterMap Reply.turnPlan
      ∧ RateLimited deps.sh.server.maxMessagesPerWindow deps.sh.server.rateLimitWindow
          (events.filterMap (Ask.verdict ClientMessage.isTurn))
      ∧ RateLimited deps.sh.server.maxCancelsPerWindow deps.sh.server.rateLimitWindow
          (events.filterMap (Ask.verdict ClientMessage.isCancel)) := by
  refine ⟨?_, ?_, ?_, ?_, ?_⟩
  · obtain ⟨s, haccepted, -, hserves⟩ : ∃ s,
        exec (servicePolicy deps).step .free
          (traffic deps (.init deps.sanitizer deps.sh.server clientId) labels) = some s
          ∧ Tracked c ∧ c.phase.Serves deps s := by
      refine outputs_refine (R := fun c s => Tracked c ∧ c.phase.Serves deps s) ?_
        ⟨tracked_init _ clientId, rfl⟩ hrun
      intro c label c' s h hs
      obtain ⟨s', haccepted, hserves⟩ := serves_step h.1 h.2 hs
      exact ⟨s', haccepted, tracked_step h.1 hs, hserves⟩
    obtain ⟨served, rest, hevents, hrest⟩ := exec_served haccepted
    refine ⟨served, s, rest, hevents, hrest, fun hp => ?_⟩
    rw [hp] at hserves
    obtain rfl : s = .free := hserves
    cases hrest
    rfl
  · exact outputs_filterMap_congr (fun c label c' _ => hands_passes c label c') _ labels
  · exact outputs_ledger (fun c => c.tasks.map Task.plan) Reply.turnPlan
      (fun c label c' hs => plans_step hs) hrun
  · refine rateLimited_create (verdicts_run _ Conn.messageLimiter
      (fun c label c' hs => (limited_step hs).1) (fun c msg now hkind => ?_) hrun)
    cases msg <;> first | rfl | cases hkind
  · refine rateLimited_create (verdicts_run _ Conn.cancelLimiter
      (fun c label c' hs => (limited_step hs).2) (fun c msg now hkind => ?_) hrun)
    cases msg <;> first | rfl | cases hkind

/-- A connection of the shipped deployment. -/
def shippedConn : Conn (Deps.sample true false).sanitizer :=
  .init _ (Deps.sample true false).sh.server "client".toList

/-- A start, a message and a ping: two frames and a turn. -/
def startMessagePing : List Label := oneTurn ++ [.recv .ping 1, .sent .ack]

theorem served_in_order_startMessagePing :
    ∃ c, exec (Conn.step (.sample true false)) shippedConn startMessagePing = some c
      ∧ (traffic (.sample true false) shippedConn startMessagePing).filterMap Reply.frameType
          = [.done, .pong]
      ∧ ((traffic (.sample true false) shippedConn startMessagePing).filterMap
          Reply.turnPlan).length = 1 := by
  have hrun : (exec (Conn.step (.sample true false)) shippedConn startMessagePing).map
      (fun c => c.tasks.length) = some 1 := by decide +kernel
  have hframes : (handedOver (.sample true false) shippedConn startMessagePing).filterMap
      Sent.byHandler = [.done, .pong] := by decide +kernel
  obtain ⟨c, hc, hlength⟩ := Option.map_eq_some_iff.mp hrun
  obtain ⟨-, hhanded, hplans, -⟩ := served_in_order hc
  refine ⟨c, hc, hhanded.symm.trans hframes, ?_⟩
  rw [← hlength, ← List.length_map Task.plan]
  exact congrArg List.length hplans.symm

end YapInference
