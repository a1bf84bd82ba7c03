import YapInference.WebSocket.Generations
import YapInference.Proof.Heeding

/-!
# What a turn asks of the engine

Between two awaits a connection makes at most two engine calls (`CallsFor`). A turn that begins to
stream registers its generation, and it is live; a stream that ends forgets it. The handler's abort
of a request is the only one that finds something: the abort a stream makes for itself when it times
out comes after its own `finally`, and the one its cancel check would make never comes at all.
-/

namespace YapInference

open Py Conn

variable {deps : Deps}

/-! ## The calls of a step -/

section Calls

variable {c c' : Conn deps.sanitizer} {label : Label}

/-- A task that is not yet asked to cancel is asked by the handler, in an abort of its request. -/
theorem loopSteps_asks (hs : LoopSteps deps c label c') :
    (∃ a next, label = .resume ∧ c.phase = .abortLock a next
        ∧ c'.tasks = c.cancelSection.tasks)
      ∨ c'.tasks = c.tasks ∨ ∃ plan, c'.tasks = c.tasks ++ [.create plan] := by
  have hplans : ∀ {c₀ : Conn deps.sanitizer} {msg}, Plans deps c₀ msg c' →
      c₀.tasks = c.tasks → c'.tasks = c.tasks := by
    intro c₀ msg hp htasks
    cases hp with
    | rejected _ _ _ | planned _ => exact htasks
  cases hs with
  | @raised _ c₁ e hr =>
      obtain ⟨phase, -, heq⟩ := raiseLoop_cases deps.sh.lower c₁ e
      rw [heq]
      cases hr with
      | received _ _ | parsed _ | sent _ _ | closed _ | aborted _ _ | started _ _ _ _
      | message _ _ _ _ _ => exact Or.inr (Or.inl rfl)
  | messagePlans _ _ _ hplan => exact Or.inr (Or.inl (hplans hplan rfl))
  | abortedPlans _ hplan => exact Or.inr (Or.inl (hplans hplan rfl))
  | @replied frame next _ b _ _ => cases next <;> exact Or.inr (Or.inl rfl)
  | @cancelled requestId next hp => exact Or.inl ⟨requestId, next, rfl, hp, rfl⟩
  | @began plan hp =>
      unfold beginSection
      dsimp only
      split
      · exact Or.inr (Or.inl rfl)
      · exact Or.inr (Or.inr ⟨plan, rfl⟩)
  | _ => exact Or.inr (Or.inl rfl)

/-- **What becomes of a task in a step**: it is as asked as before, or the handler aborts it, by the
id it read on entry. -/
theorem Heeding.asks (h : Heeding deps c) (hs : c.step deps label = some c') {id : TaskId}
    {t : Task deps.sanitizer} (ht : c.tasks[id]? = some t) :
    ∃ t', c'.tasks[id]? = some t' ∧ t'.plan = t.plan
      ∧ (t'.cancelAsked = t.cancelAsked
        ∨ label = .resume ∧ ∃ next, c.phase = .abortLock (some t.plan.requestId) next) := by
  rcases step_cases hs with ⟨rfl, rfl⟩ | ⟨id', event, rfl, htask⟩ | hl
  · exact ⟨t, ht, rfl, Or.inl rfl⟩
  · have hset : ∃ u u', c.tasks[id']? = some u ∧ c'.tasks = c.tasks.set id' u'
        ∧ u'.plan = u.plan ∧ u'.cancelAsked = u.cancelAsked := by
      cases htask with
      | streamed hget _ _ _ | ran hget _ _ => exact ⟨_, _, hget, rfl, rfl, rfl⟩
    obtain ⟨u, u', hu, htasks, hplan, hasked⟩ := hset
    rw [htasks]
    by_cases hi : id' = id
    · subst hi
      obtain rfl := Option.some.inj (hu.symm.trans ht)
      exact ⟨u', List.getElem?_set_self (List.getElem?_eq_some_iff.mp ht).1, hplan, Or.inl hasked⟩
    · exact ⟨t, (List.getElem?_set_ne hi).trans ht, rfl, Or.inl rfl⟩
  · rcases loopSteps_asks hl with ⟨a, next, rfl, hp, htasks⟩ | htasks | ⟨plan, htasks⟩
    · rw [htasks]
      unfold cancelSection
      dsimp only
      split
      · rename_i id' hid
        rw [List.getElem?_modify, ht]
        by_cases hi : id' = id
        · -- it is the tracked task, and was live unless it had been asked before
          subst hi
          refine ⟨t.cancel, by simp, rfl, ?_⟩
          cases hasked : t.cancelAsked with
          | true => exact Or.inl rfl
          | false =>
              obtain ⟨-, hrunning⟩ := Option.filter_eq_some_iff.mp hid
              have hlive : t.isLive = true := by
                simpa [Task.isLive, hasked, taskDone_of_get ht] using hrunning
              have hactive := (h.settled.tracked.live id' t ht hlive).1
              rcases h.entry a next hp with ha | hnone
              · rw [ha] at hactive
                exact Or.inr ⟨rfl, next, hactive ▸ hp⟩
              · rw [hnone] at hactive
                cases hactive
        · exact ⟨t, by simp [hi], rfl, Or.inl rfl⟩
      · exact ⟨t, ht, rfl, Or.inl rfl⟩
    · exact ⟨t, htasks ▸ ht, rfl, Or.inl rfl⟩
    · refine ⟨t, ?_, rfl, Or.inl rfl⟩
      rw [htasks, List.getElem?_append_left (List.getElem?_eq_some_iff.mp ht).1, ht]

/-- The engine calls a step makes. -/
inductive CallsFor (c : Conn deps.sanitizer) (label : Label) :
    List (RequestId × EngineCall) → Prop where
  | none : CallsFor c label []
  /-- A live turn begins to stream. -/
  | begins {id : TaskId} {t : Task deps.sanitizer} : c.tasks[id]? = some t → t.isLive = true →
      CallsFor c label [(t.plan.requestId, .generate)]
  | closes {requestId} : CallsFor c label [(requestId, .close)]
  | timesOut {requestId} : CallsFor c label [(requestId, .close), (requestId, .abort)]
  /-- The handler aborts a request. -/
  | aborts {requestId next} : label = .resume → c.phase = .abortLock (some requestId) next →
      CallsFor c label [(requestId, .abort)]

/-- A stream that is past a step is where its chain is, or over. -/
theorem chain_phaseOfTurn {S : Sanitizer} (lower : Lower) (turn : ChatTurn S) :
    (phaseOfTurn lower turn).chain = turn.phase ∨ (phaseOfTurn lower turn).chain = .over := by
  unfold phaseOfTurn
  split
  · rename_i outcome _
    right
    unfold phaseOfOutcome
    split <;> rfl
  · exact Or.inl rfl

/-- The calls of a stream, whose cancel check is false. -/
theorem chainCalls_of_step {S : Sanitizer} {lower : Lower} {turn turn' : ChatTurn S}
    {event : ChainEvent} (hs : turn.step event = some turn')
    (hchecked : turn.phase ≠ .aborting .cancelCheck)
    (hchecks : turn'.phase ≠ .aborting .cancelCheck) :
    chainCalls turn.phase event (phaseOfTurn lower turn').chain = []
      ∨ chainCalls turn.phase event (phaseOfTurn lower turn').chain = [.close]
      ∨ chainCalls turn.phase event (phaseOfTurn lower turn').chain = [.close, .abort] := by
  -- a stream that does not come to an abort of its own makes no call but to close
  have hquiet : (∀ cause, turn'.phase ≠ .aborting cause) →
      chainCalls turn.phase event (phaseOfTurn lower turn').chain = []
        ∨ chainCalls turn.phase event (phaseOfTurn lower turn').chain = [.close] := by
    intro hne
    have hnone : ∀ cause, (phaseOfTurn lower turn').chain ≠ .aborting cause := by
      rcases chain_phaseOfTurn lower turn' with heq | heq <;> rw [heq]
      · exact hne
      · exact fun _ h => by cases h
    unfold chainCalls
    split <;> cases hchain : (phaseOfTurn lower turn').chain <;> simp_all
  have htimes : turn.phase = .engine → turn'.phase = .aborting .timeout →
      (∀ text check now, event ≠ .output text check now) →
      chainCalls turn.phase event (phaseOfTurn lower turn').chain = [.close]
        ∨ chainCalls turn.phase event (phaseOfTurn lower turn').chain = [.close, .abort] := by
    intro hp hp' hne
    -- what ends the await of an output unwinds through the generator
    have hcloses : ∀ cause, chainCalls .engine event (.aborting cause) = [.close, .abort] := by
      intro cause
      cases event with
      | output text check now => exact absurd rfl (hne text check now)
      | _ => rfl
    have hover : chainCalls .engine event .over = [.close] := by
      cases event with
      | output text check now => exact absurd rfl (hne text check now)
      | _ => rfl
    rw [hp]
    rcases chain_phaseOfTurn lower turn' with heq | heq <;> rw [heq]
    · rw [hp']
      exact Or.inr (hcloses .timeout)
    · exact Or.inl hover
  have hthree : ∀ {a b d : Prop}, a ∨ b → a ∨ b ∨ d := fun h => h.imp id Or.inl
  cases ChatTurn.steps_of_step hs with
  | check _ => exact absurd rfl hchecks
  | output _ => exact hthree (hquiet (ChatTurn.onOutput_not_aborting _ _ _))
  | exhausted _ | failed _ _ | cancelEngine _ | abortedCheck _ | abortedTimeout _ | abortFailed _ _
  | cancelAbort _ => exact hthree (hquiet (ChatTurn.exitStream_not_aborting _ _))
  | failedTimeout hp => exact Or.inr (htimes hp rfl (fun _ _ _ h => by cases h))
  | timedOut hp => exact Or.inr (htimes hp rfl (fun _ _ _ h => by cases h))
  | abortTimeout hp => exact absurd hp hchecked
  | sent _ _ | cancelSend _ => exact hthree (hquiet (ChatTurn.onSent_not_aborting _ _ _))

theorem chainCalls_withCancelCheck (session : SessionState) (requestId : RequestId)
    (phase phase' : ChainPhase) (event : ChainEvent) :
    chainCalls phase (withCancelCheck session requestId event) phase'
      = chainCalls phase event phase' := by
  cases event <;> cases phase <;> rfl

/-- A task that begins to stream is live. -/
theorem Heeding.begins (h : Heeding deps c) {id : TaskId} {event : TaskEvent}
    {t t' : Task deps.sanitizer} {turn : ChatTurn deps.sanitizer} {session : SessionState}
    (hs : TaskSteps deps c id event c') (ht : c.tasks[id]? = some t)
    (ht' : c'.tasks[id]? = some t') (hp : t'.phase = .streaming turn)
    (hrun : runTask deps c.nextId c.session t.plan t.phase event = some (session, t'.phase)) :
    t.isLive = true := by
  by_contra hlive
  have hleaving := h.settled.leaves ht (Bool.eq_false_of_not_eq_true hlive)
  obtain ⟨u, htasks, hl, -⟩ := leaving_taskStep h.settled.chains hs ht hleaving
  have hu : u = t' := by
    rw [htasks, List.getElem?_set_self (List.getElem?_eq_some_iff.mp ht).1] at ht'
    exact Option.some.inj ht'
  subst hu
  obtain ⟨historyUser, now, rfl⟩ := (taskRuns_of_runTask hrun).fresh turn hp
  cases hl with
  | finished hd => simp [Task.isDone, hp] at hd
  | completing hc | replying hc => rw [hp] at hc; cases hc
  | flushing hturn _ hcons _ =>
      obtain rfl := TaskPhase.streaming.inj (hp.symm.trans hturn)
      cases hcons
  | asked hpending =>
      -- the cancellation has been delivered by now
      cases hs with
      | streamed _ _ _ _ =>
          rcases getElem?_set_cases ht' with ⟨-, rfl⟩ | ⟨hne, -⟩
          · cases hpending
          · exact hne rfl
      | ran _ _ _ =>
          rcases getElem?_set_cases ht' with ⟨-, rfl⟩ | ⟨hne, -⟩
          · cases hpending
          · exact hne rfl

/-- The engine calls of a task. -/
theorem Heeding.taskCalls (h : Heeding deps c) {id : TaskId} {event : TaskEvent}
    {t t' : Task deps.sanitizer} (hs : c.step deps (.task id event) = some c')
    (ht : c.tasks[id]? = some t) (ht' : c'.tasks[id]? = some t') :
    CallsFor c (.task id event)
      ((t.phase.engineCalls event t'.phase).map (t.plan.requestId, ·)) := by
  have htask := taskSteps_of_taskStep (show c.taskStep deps id event = some c' from hs)
  cases htask with
  | @streamed u turn turn' event now hget hadmits hp hturn =>
      obtain rfl := Option.some.inj (hget.symm.trans ht)
      have hphase : t'.phase = phaseOfTurn deps.sh.lower turn' := by
        rcases getElem?_set_cases ht' with ⟨-, rfl⟩ | ⟨hne, -⟩
        · rfl
        · exact absurd rfl hne
      have hcalls := @chainCalls_of_step _ deps.sh.lower _ _ _ hturn (h.unchecked id u turn hget hp)
        (h.unchecked_step hget hadmits hp hturn)
      rw [chainCalls_withCancelCheck] at hcalls
      rw [hp, hphase]
      show CallsFor c _
        ((chainCalls turn.phase event (phaseOfTurn deps.sh.lower turn').chain).map _)
      rcases hcalls with heq | heq | heq <;> rw [heq]
      · exact .none
      · exact .closes
      · exact .timesOut
  | @ran u _ session phase hget hadmits hrun =>
      obtain rfl := Option.some.inj (hget.symm.trans ht)
      have hphase : t'.phase = phase := by
        rcases getElem?_set_cases ht' with ⟨-, rfl⟩ | ⟨hne, -⟩
        · rfl
        · exact absurd rfl hne
      subst hphase
      unfold TaskPhase.engineCalls
      split
      · rename_i hp
        rw [hp] at hrun
        cases hrun
      · rename_i turn hp _
        exact .begins ht (h.begins (.ran hget hadmits hrun) ht ht' hp hrun)
      · exact .none

/-- **The engine calls of a step.** -/
theorem Heeding.calls (h : Heeding deps c) (hs : c.step deps label = some c') :
    CallsFor c label (c.engineCalls deps label c') := by
  unfold engineCalls
  split
  · split
    · rename_i t t' ht ht'
      exact h.taskCalls hs ht ht'
    · exact .none
  · split
    · rename_i requestId next hp
      split
      · exact .aborts rfl hp
      · exact .none
    · exact .none
  · exact .none

/-- `abort_session_requests` tells the engine. -/
theorem engineCalls_abort (hchat : deps.hasChatEngine = true) {requestId : RequestId}
    {next : AfterAbort} (hp : c.phase = .abortLock (some requestId) next) :
    c.engineCalls deps .resume c' = [(requestId, .abort)] := by
  simp [engineCalls, hp, hchat]

/-- And leaves no task live. -/
theorem Heeding.noneLive (h : Heeding deps c) {a : Option RequestId} {next : AfterAbort}
    (hp : c.phase = .abortLock a next) (hs : c.step deps .resume = some c') : NoneLive c' := by
  have htasks : c'.tasks = c.cancelSection.tasks := by
    have hloop : c.loopStep deps .resume = some c' := hs
    unfold loopStep at hloop
    rw [hp] at hloop
    dsimp only at hloop
    split at hloop <;> (cases hloop; rfl)
  intro id t ht
  exact h.settled.tracked.noneLive_cancelSection (by simp [hp]) id t (htasks ▸ ht)

end Calls

/-! ## What is registered for a connection -/

/-- The request is of a turn nobody has asked to cancel. -/
def Conn.Wants {S : Sanitizer} (c : Conn S) (requestId : RequestId) : Prop :=
  ∃ (id : Nat) (t : Task S), c.tasks[id]? = some t ∧ t.plan.requestId = requestId
    ∧ t.cancelAsked = false

/-- The request is of a turn that is over, or was asked to cancel. -/
def Conn.Drops {S : Sanitizer} (c : Conn S) (requestId : RequestId) : Prop :=
  ∃ (id : Nat) (t : Task S), c.tasks[id]? = some t ∧ t.plan.requestId = requestId
    ∧ t.isLive = false

theorem wants_of_live {S : Sanitizer} {c : Conn S} {id : Nat} {t : Task S}
    (ht : c.tasks[id]? = some t) (hl : t.isLive = true) : c.Wants t.plan.requestId := by
  unfold Task.isLive at hl
  exact ⟨id, t, ht, rfl, by simpa using (Bool.and_eq_true_iff.mp hl).2⟩

section Registered

variable {c c' : Conn deps.sanitizer} {label : Label} {Socket : Type} [DecidableEq Socket]
  {ws : Socket} {e : TRTEngine (Socket × RequestId)} {generated : Option GenerationResult}

omit [DecidableEq Socket] in
/-- The calls of a connection, as its socket makes them. -/
def keyed (ws : Socket) (cs : List (RequestId × EngineCall)) :
    List ((Socket × RequestId) × EngineCall) :=
  cs.map fun p => ((ws, p.1), p.2)

/-- **A turn is wanted until the handler aborts it.** -/
theorem Heeding.wants (h : Heeding deps c) (hs : c.step deps label = some c')
    {requestId : RequestId} (hw : c.Wants requestId) :
    c'.Wants requestId
      ∨ label = .resume ∧ ∃ next, c.phase = .abortLock (some requestId) next := by
  obtain ⟨id, t, ht, rfl, hasked⟩ := hw
  obtain ⟨t', ht', hplan, hstill | haborts⟩ := h.asks hs ht
  · exact Or.inl ⟨id, t', ht', by rw [hplan], hstill.trans hasked⟩
  · exact Or.inr haborts

/-- What is registered after a step was, or is of a turn that begins to stream. -/
theorem CallsFor.registered {cs : List (RequestId × EngineCall)} (h : CallsFor c label cs)
    {requestId : RequestId} {g : GenerationResult}
    (hg : (e.calls generated (keyed ws cs)).1.registered (ws, requestId) = some g) :
    e.registered (ws, requestId) = some g
      ∨ ∃ (id : Nat) (t : Task deps.sanitizer), c.tasks[id]? = some t ∧ t.isLive = true
        ∧ t.plan.requestId = requestId := by
  cases h with
  | none => exact Or.inl hg
  | @begins id t ht hl =>
      by_cases hk : t.plan.requestId = requestId
      · exact Or.inr ⟨id, t, ht, hl, hk⟩
      · have hne : (ws, requestId) ≠ (ws, t.plan.requestId) := fun he =>
          hk (Prod.mk.inj he).2.symm
        exact Or.inl ((e.registered_generateStream_ne hne generated).symm.trans hg)
  | @closes r =>
      have hg' : (e.closeStream (ws, r)).registered (ws, requestId) = some g := hg
      rw [TRTEngine.registered_closeStream] at hg'
      split at hg'
      · cases hg'
      · exact Or.inl hg'
  | @timesOut r =>
      have hg' : ((e.closeStream (ws, r)).abort (ws, r)).1.registered (ws, requestId) = some g := hg
      rw [TRTEngine.registered_abort, TRTEngine.registered_closeStream] at hg'
      split at hg'
      · cases hg'
      · exact Or.inl hg'
  | @aborts r next _ _ =>
      have hg' : (e.abort (ws, r)).1.registered (ws, requestId) = some g := hg
      rw [TRTEngine.registered_abort] at hg'
      split at hg'
      · cases hg'
      · exact Or.inl hg'

/-- **Only the handler's abort reaches the executor.** -/
theorem CallsFor.told {cs : List (RequestId × EngineCall)} (h : CallsFor c label cs) :
    (e.calls generated (keyed ws cs)).2 = []
      ∨ ∃ requestId next, label = .resume ∧ c.phase = .abortLock (some requestId) next
        ∧ e.calls generated (keyed ws cs)
          = ((e.abort (ws, requestId)).1,
            (e.abort (ws, requestId)).2.toList.map ((ws, requestId), ·)) := by
  cases h with
  | none | begins _ _ | closes => exact Or.inl rfl
  | @timesOut r =>
      left
      -- the generator's `finally` was there first
      have hnone : ((e.closeStream (ws, r)).abort (ws, r)).2 = Option.none := by
        by_contra hsome
        obtain ⟨n, hn⟩ := Option.ne_none_iff_exists'.mp hsome
        obtain ⟨-, g, hg, -⟩ := (TRTEngine.told_abort _ _ _).mp hn
        simp at hg
      show ((e.closeStream (ws, r)).abort (ws, r)).2.toList.map ((ws, r), ·) ++ [] = []
      rw [hnone]
      rfl
  | @aborts r next hl hp =>
      exact Or.inr ⟨r, next, hl, hp, Prod.ext rfl (List.append_nil _)⟩

end Registered

end YapInference
