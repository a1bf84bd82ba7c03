import YapInference.Lib.Outputs
import YapInference.Proof.EngineCalls

/-!
# Cancelled generations are aborted, and no others

A cancellation has two halves: the task is asked to cancel, and the engine is told to abort what it
generates for the task. The handler does both in one step. So the generations that are registered
are always those of turns nobody has asked to cancel (`Sound`), and the executor is told of each one
that stops being so in the step that asks.

The connections share the engine and nothing of its table: a step makes calls for one socket only.
-/

namespace YapInference

open Py Conn Lts

variable {deps : Deps} {Socket : Type} [DecidableEq Socket] {clientId : Socket → Text}

/-! ## The handlers -/

/-- What a step of the server does to a handler. -/
inductive HandlerSteps (deps : Deps) (clientId : Socket → Text) (s : Server deps.sanitizer Socket) :
    ServerLabel Socket → Socket → HandlerPhase deps.sanitizer → Prop where
  /-- It serves nothing, before or after. -/
  | waits {l ws phase} : (∀ x label, l ≠ .conn x label) → (∀ c, s.handlers ws ≠ .serving c) →
      (∀ c, phase ≠ .serving c) → HandlerSteps deps clientId s l ws phase
  | stays {ws} : HandlerSteps deps clientId s (.released ws) ws (s.handlers ws)
  | enters {ws} : s.handlers ws = .accepting →
      HandlerSteps deps clientId s (.accepted ws) ws
        (.serving (.init deps.sanitizer deps.sh.server (clientId ws)))
  | serves {ws c label c'} : s.handlers ws = .serving c → c.step deps label = some c' →
      HandlerSteps deps clientId s (.conn ws label) ws (.serving c')
  | disconnects {ws c c'} : s.handlers ws = .serving c → c.phase.isDisconnecting = true →
      c.step deps .resume = some c' → HandlerSteps deps clientId s (.removed ws) ws (.serving c')

theorem handlers_calls {S : Sanitizer} {s s' : Server S Socket} {ws : Socket}
    {l : AdmissionStep Socket} {phase : HandlerPhase S} (hs : s.calls ws l phase = some s') :
    s'.handlers = Function.update s.handlers ws phase := by
  obtain ⟨admission, -, rfl⟩ := Option.map_eq_some_iff.mp hs
  rfl

/-- **A step of the server is a step of one handler.** -/
theorem handlerSteps_of_step {s s' : Server deps.sanitizer Socket} {l : ServerLabel Socket}
    (hs : s.step deps clientId l = some s') :
    ∃ ws phase, s'.handlers = Function.update s.handlers ws phase
      ∧ HandlerSteps deps clientId s l ws phase := by
  -- a handler that waits, and the phase it is in
  have hwaits : ∀ {ws : Socket} {phase phase' : HandlerPhase deps.sanitizer},
      (∀ x label, l ≠ .conn x label) → s.handlers ws = phase → (∀ c, phase ≠ .serving c) →
      (∀ c, phase' ≠ .serving c) → s'.handlers = Function.update s.handlers ws phase' →
      ∃ ws phase, s'.handlers = Function.update s.handlers ws phase
        ∧ HandlerSteps deps clientId s l ws phase := by
    intro ws phase phase' hl hp hne hne' heq
    exact ⟨ws, phase', heq, .waits hl (hp ▸ hne) hne'⟩
  cases l with
  | arrived ws | authRaised ws | rejected ws =>
      simp only [Server.step] at hs
      split at hs
      · rename_i hp
        cases hs
        exact hwaits (fun _ _ h => by cases h) hp (fun _ h => by cases h) (fun _ h => by cases h)
          rfl
      · cases hs
  | authenticated ws granted =>
      simp only [Server.step] at hs
      split at hs
      · rename_i hp
        split at hs
        · exact hwaits (fun _ _ h => by cases h) hp (fun _ h => by cases h)
            (fun _ h => by cases h) (handlers_calls hs)
        · cases hs
          exact hwaits (fun _ _ h => by cases h) hp (fun _ h => by cases h)
            (fun _ h => by cases h) rfl
      · cases hs
  | acquired ws | timedOut ws | added ws | lockFailed ws | acceptRaised ws =>
      simp only [Server.step] at hs
      split at hs
      · rename_i hp
        exact hwaits (fun _ _ h => by cases h) hp (fun _ h => by cases h) (fun _ h => by cases h)
          (handlers_calls hs)
      · cases hs
  | accepted ws =>
      simp only [Server.step] at hs
      split at hs
      · rename_i hp
        cases hs
        exact ⟨ws, _, rfl, .enters hp⟩
      · cases hs
  | conn ws label =>
      simp only [Server.step] at hs
      split at hs
      · rename_i c hp
        split at hs
        · cases hs
        · unfold Server.connStep at hs
          split at hs
          · cases hs
          · rename_i c' hstep
            split at hs
            · exact ⟨ws, _, handlers_calls hs, .serves hp hstep⟩
            · cases hs
              exact ⟨ws, _, rfl, .serves hp hstep⟩
      · cases hs
  | removed ws =>
      simp only [Server.step] at hs
      split at hs
      · rename_i hp
        exact hwaits (fun _ _ h => by cases h) hp (fun _ h => by cases h) (fun _ h => by cases h)
          (handlers_calls hs)
      · rename_i c hp
        split at hs
        · rename_i hdis
          obtain ⟨c', hstep, hs⟩ := Option.bind_eq_some_iff.mp hs
          exact ⟨ws, _, handlers_calls hs, .disconnects hp hdis hstep⟩
        · cases hs
      · cases hs
  | released ws => exact ⟨ws, _, handlers_calls hs, .stays⟩

/-! ## The system -/

namespace Generations

/-- **Whatever is registered belongs to a turn nobody has asked to cancel.** -/
structure Sound (s : Generations deps.sanitizer Socket) : Prop where
  heeding : ∀ ws c, s.server.handlers ws = .serving c → Heeding deps c
  wanted : ∀ ws requestId g, s.engine.registered (ws, requestId) = some g →
    ∃ c, s.server.handlers ws = .serving c ∧ c.Wants requestId

theorem sound_create (maxConnections : Nat) (hasExecutor : Bool) :
    Sound (create deps.sanitizer maxConnections hasExecutor :
      Generations deps.sanitizer Socket) where
  heeding := fun _ _ h => by cases h
  wanted := fun _ _ _ h => by cases h

section Steps

variable {s : Generations deps.sanitizer Socket} {server : Server deps.sanitizer Socket}
  {generated : Option GenerationResult} {ws : Socket} {c c' : Conn deps.sanitizer} {label : Label}

/-- A connection takes a step, with the calls it makes. -/
theorem Sound.serves (h : Sound s) (hchat : deps.hasChatEngine = true)
    (hc : s.server.handlers ws = .serving c) (hs : c.step deps label = some c')
    (hhandlers : server.handlers = Function.update s.server.handlers ws (.serving c')) :
    Sound { s with
      server := server
      engine := (s.engine.calls generated (keyed ws (c.engineCalls deps label c'))).1 } := by
  have hheeding := h.heeding ws c hc
  refine ⟨fun x d hx => ?_, fun x requestId g hg => ?_⟩
  · have hx : server.handlers x = .serving d := hx
    rw [hhandlers] at hx
    by_cases hxw : x = ws
    · subst hxw
      rw [Function.update_self] at hx
      cases hx
      exact heeding_step hheeding hs
    · rw [Function.update_of_ne hxw] at hx
      exact h.heeding x d hx
  · show ∃ d, server.handlers x = .serving d ∧ _
    rw [hhandlers]
    by_cases hxw : x = ws
    · subst hxw
      rw [Function.update_self]
      refine ⟨c', rfl, ?_⟩
      have hwanted : c.Wants requestId := by
        rcases (hheeding.calls hs).registered hg with hbefore | ⟨id, t, ht, hl, rfl⟩
        · obtain ⟨d, hd, hw⟩ := h.wanted x requestId g hbefore
          cases hd.symm.trans hc
          exact hw
        · exact wants_of_live ht hl
      rcases hheeding.wants hs hwanted with hw | ⟨rfl, next, hp⟩
      · exact hw
      -- what the handler aborts is not registered any more
      · rw [engineCalls_abort hchat hp] at hg
        have hnone : (s.engine.abort (x, requestId)).1.registered (x, requestId) = some g := hg
        simp at hnone
    · rw [Function.update_of_ne hxw]
      refine h.wanted x requestId g (Eq.trans (Eq.symm ?_) hg)
      refine TRTEngine.registered_calls_ne _ _ _ fun p hp he => ?_
      obtain ⟨q, -, rfl⟩ := List.mem_map.mp hp
      exact hxw (Prod.mk.inj he).1.symm

/-- Other steps of the server make no calls. -/
theorem serverCalls_eq {l : ServerLabel Socket} (hs : s.server.step deps clientId l = some server) :
    (∃ ws c label c', l = .conn ws label ∧ s.server.handlers ws = .serving c
        ∧ c.step deps label = some c'
        ∧ server.handlers = Function.update s.server.handlers ws (.serving c')
        ∧ serverCalls deps s.server l server = keyed ws (c.engineCalls deps label c'))
      ∨ (∀ ws label, l ≠ .conn ws label) ∧ serverCalls deps s.server l server = [] := by
  obtain ⟨ws, phase, hhandlers, hstep⟩ := handlerSteps_of_step hs
  have hquiet : (∀ ws label, l ≠ .conn ws label) → serverCalls deps s.server l server = [] := by
    intro hl
    unfold serverCalls
    split
    · rename_i x label
      exact absurd rfl (hl x label)
    · rfl
  cases hstep with
  | waits hl _ _ => exact Or.inr ⟨hl, hquiet hl⟩
  | stays | enters _ | disconnects _ _ _ =>
      exact Or.inr ⟨(fun _ _ h => by cases h), hquiet fun _ _ h => by cases h⟩
  | @serves _ c label c' hc hconn =>
      refine Or.inl ⟨ws, c, label, c', rfl, hc, hconn, hhandlers, ?_⟩
      unfold serverCalls keyed
      dsimp only
      rw [hc, hhandlers, Function.update_self]

/-- A handler at its `disconnect` makes no calls. -/
theorem engineCalls_disconnecting (hp : c.phase.isDisconnecting = true) :
    c.engineCalls deps .resume c' = [] := by
  unfold engineCalls
  dsimp only
  split
  · rename_i heq
    rw [heq] at hp
    cases hp
  · rfl

/-- A dropped generator is closed. -/
theorem finalized_cases {s' : Generations deps.sanitizer Socket} {id : TaskId}
    (hs : s.step deps clientId (.finalized ws id) = some s') :
    ∃ k, s' = { s with engine := s.engine.closeStream k } := by
  simp only [step] at hs
  split at hs
  · split at hs
    · split at hs
      · cases hs
      · cases hs
        exact ⟨_, rfl⟩
    · cases hs
  · cases hs

/-- **Preserved by every step.** -/
theorem sound_step {s' : Generations deps.sanitizer Socket} {l : GenerationsLabel Socket}
    (h : Sound s) (hchat : deps.hasChatEngine = true) (hs : s.step deps clientId l = some s') :
    Sound s' := by
  cases l with
  | server l generated =>
      obtain ⟨server, hserver, rfl⟩ := Option.map_eq_some_iff.mp hs
      rcases serverCalls_eq hserver with ⟨ws, c, label, c', rfl, hc, hconn, hhandlers, hcalls⟩
          | ⟨hl, hcalls⟩
      · rw [hcalls]
        exact h.serves hchat hc hconn hhandlers
      · rw [hcalls]
        obtain ⟨ws, phase, hhandlers, hstep⟩ := handlerSteps_of_step hserver
        -- nothing is registered for a handler that serves nothing
        have hidle : ∀ {phase : HandlerPhase deps.sanitizer},
            server.handlers = Function.update s.server.handlers ws phase →
            (∀ c, s.server.handlers ws ≠ .serving c) →
            (∀ c, phase = .serving c → Heeding deps c) →
            Sound { server := server, engine := s.engine } := by
          intro phase hhandlers hne hheeding
          refine ⟨fun x d hx => ?_, fun x requestId g hg => ?_⟩
          · have hx : server.handlers x = .serving d := hx
            rw [hhandlers] at hx
            by_cases hxw : x = ws
            · subst hxw
              rw [Function.update_self] at hx
              exact hheeding d hx
            · rw [Function.update_of_ne hxw] at hx
              exact h.heeding x d hx
          · obtain ⟨d, hd, hw⟩ := h.wanted x requestId g hg
            have hxw : x ≠ ws := fun he => hne d (he ▸ hd)
            refine ⟨d, ?_, hw⟩
            show server.handlers x = .serving d
            rw [hhandlers, Function.update_of_ne hxw]
            exact hd
        cases hstep with
        | waits _ hne hne' => exact hidle hhandlers hne fun c hc => absurd hc (hne' c)
        | enters hp =>
            refine hidle hhandlers (fun c hc => by rw [hp] at hc; cases hc) fun c hc => ?_
            cases hc
            exact heeding_init deps _
        | stays =>
            rw [Function.update_eq_self] at hhandlers
            refine ⟨fun x d hx => h.heeding x d (hhandlers ▸ hx), fun x requestId g hg => ?_⟩
            obtain ⟨d, hd, hw⟩ := h.wanted x requestId g hg
            exact ⟨d, hhandlers ▸ hd, hw⟩
        | serves _ _ => exact absurd rfl (hl _ _)
        | @disconnects _ c c' hc hdis hconn =>
            have hcalls := @engineCalls_disconnecting _ c c' hdis
            have hserves := @Sound.serves deps Socket _ s server generated _ c c' .resume h hchat hc
              hconn hhandlers
            rw [hcalls] at hserves
            exact hserves
  | finalized ws id =>
      obtain ⟨k, rfl⟩ := finalized_cases hs
      refine ⟨h.heeding, fun x requestId g hg => ?_⟩
      rw [TRTEngine.registered_closeStream] at hg
      split at hg
      · cases hg
      · exact h.wanted x requestId g hg
  | shutdown =>
      cases hs
      exact ⟨h.heeding, h.wanted⟩

/-- **What the executor is told**: of what the handler aborts, if it is registered. -/
theorem told_cases {s' : Generations deps.sanitizer Socket} {l : GenerationsLabel Socket}
    (h : Sound s) (hs : s.step deps clientId l = some s') :
    s.told deps l s' = []
      ∨ ∃ ws generated c c' requestId next, l = .server (.conn ws .resume) generated
        ∧ s.server.handlers ws = .serving c ∧ s'.server.handlers ws = .serving c'
        ∧ c.step deps .resume = some c' ∧ c.phase = .abortLock (some requestId) next
        ∧ s'.engine = (s.engine.abort (ws, requestId)).1
        ∧ s.told deps l s'
          = (s.engine.abort (ws, requestId)).2.toList.map ((ws, requestId), ·) := by
  cases l with
  | server l generated =>
      obtain ⟨server, hserver, rfl⟩ := Option.map_eq_some_iff.mp hs
      unfold told
      rcases serverCalls_eq hserver with ⟨ws, c, label, c', rfl, hc, hconn, hhandlers, hcalls⟩
          | ⟨-, hcalls⟩
      · dsimp only
        rw [hcalls]
        have htold := @CallsFor.told deps c label Socket _ ws s.engine generated _
          ((h.heeding ws c hc).calls hconn)
        rcases htold with hnil | ⟨requestId, next, rfl, hp, htold⟩
        · exact Or.inl hnil
        · refine Or.inr ⟨ws, generated, c, c', requestId, next, rfl, hc, ?_, hconn, hp, ?_, ?_⟩
          · rw [hhandlers, Function.update_self]
          · rw [htold]
          · rw [htold]
      · dsimp only
        rw [hcalls]
        exact Or.inl rfl
  | finalized ws id => exact Or.inl rfl
  | shutdown => exact Or.inl rfl

/-- A turn that is over, or asked to cancel, stays so. -/
theorem drops_step (h : Heeding deps c) (hs : c.step deps label = some c') {requestId : RequestId}
    (hd : c.Drops requestId) : c'.Drops requestId := by
  obtain ⟨id, t, ht, rfl, hl⟩ := hd
  obtain ⟨t', ht', hplan, -⟩ := h.asks hs ht
  obtain ⟨u, hu, hlive⟩ := task_step hs ht
  obtain rfl := Option.some.inj (hu.symm.trans ht')
  exact ⟨id, u, hu, by rw [hplan], hlive hl⟩

/-- And nothing is registered for it again. -/
theorem Sound.dropped {s' : Generations deps.sanitizer Socket} {l : GenerationsLabel Socket}
    (h : Sound s) (hs : s.step deps clientId l = some s') {requestId : RequestId}
    (hc : s.server.handlers ws = .serving c) (hd : c.Drops requestId)
    (hnone : s.engine.registered (ws, requestId) = none) :
    ∃ c', s'.server.handlers ws = .serving c' ∧ c'.Drops requestId
      ∧ s'.engine.registered (ws, requestId) = none := by
  cases l with
  | server l generated =>
      obtain ⟨server, hserver, rfl⟩ := Option.map_eq_some_iff.mp hs
      rcases serverCalls_eq hserver with ⟨x, d, label, d', rfl, hx, hconn, hhandlers, hcalls⟩
          | ⟨hl, hcalls⟩
      · dsimp only
        rw [hcalls, hhandlers]
        have hheeding := h.heeding x d hx
        by_cases hxw : ws = x
        · subst hxw
          cases hx.symm.trans hc
          refine ⟨d', Function.update_self .., drops_step hheeding hconn hd, ?_⟩
          by_contra hsome
          obtain ⟨g, hg⟩ := Option.ne_none_iff_exists'.mp hsome
          rcases (hheeding.calls hconn).registered hg with hbefore | ⟨id, t, ht, hl, hid⟩
          · rw [hnone] at hbefore
            cases hbefore
          -- the turn that begins to stream is live
          · obtain ⟨id', t', ht', hid', hl'⟩ := hd
            obtain rfl := hheeding.settled.tracked.distinct id id' t t' ht ht' (hid.trans hid'.symm)
            obtain rfl := Option.some.inj (ht.symm.trans ht')
            rw [hl] at hl'
            cases hl'
        · refine ⟨c, (Function.update_of_ne hxw _ _).trans hc, hd, Eq.trans ?_ hnone⟩
          refine TRTEngine.registered_calls_ne _ _ _ fun p hp he => ?_
          obtain ⟨q, -, rfl⟩ := List.mem_map.mp hp
          exact hxw (Prod.mk.inj he).1.symm
      · dsimp only
        rw [hcalls]
        obtain ⟨x, phase, hhandlers, hstep⟩ := handlerSteps_of_step hserver
        rw [hhandlers]
        by_cases hxw : ws = x
        · subst hxw
          rw [Function.update_self]
          cases hstep with
          | waits _ hne _ => exact absurd hc (hne c)
          | stays => exact ⟨c, hc, hd, hnone⟩
          | enters hp => rw [hc] at hp; cases hp
          | serves _ _ => exact absurd rfl (hl _ _)
          | @disconnects _ d d' hd₀ _ hconn =>
              cases hd₀.symm.trans hc
              exact ⟨d', rfl, drops_step (h.heeding _ _ hc) hconn hd, hnone⟩
        · exact ⟨c, (Function.update_of_ne hxw _ _).trans hc, hd, hnone⟩
  | finalized x id =>
      obtain ⟨k, rfl⟩ := finalized_cases hs
      refine ⟨c, hc, hd, ?_⟩
      rw [TRTEngine.registered_closeStream]
      split
      · rfl
      · exact hnone
  | shutdown =>
      cases hs
      exact ⟨c, hc, hd, hnone⟩

end Steps

/-! ## Every run -/

/-- A step asks a task to cancel, of this request. -/
def AsksToCancel (s s' : Generations deps.sanitizer Socket) (ws : Socket)
    (requestId : RequestId) : Prop :=
  ∃ (c c' : Conn deps.sanitizer) (id : Nat) (t t' : Task deps.sanitizer),
    s.server.handlers ws = .serving c ∧ s'.server.handlers ws = .serving c'
      ∧ c.tasks[id]? = some t ∧ c'.tasks[id]? = some t' ∧ t.plan.requestId = requestId
      ∧ t.cancelAsked = false ∧ t'.cancelAsked = true

/-- The engine has a generation registered for the request, which the executor knows as `n`. -/
def Holds (s : Generations deps.sanitizer Socket) (ws : Socket) (requestId : RequestId)
    (n : Int) : Prop :=
  ∃ g, s.engine.registered (ws, requestId) = some g ∧ g.requestId = some n

/-- An abort that reaches the executor. -/
theorem Sound.told {s s' : Generations deps.sanitizer Socket} {l : GenerationsLabel Socket}
    (h : Sound s) (hs : s.step deps clientId l = some s') {ws : Socket} {requestId : RequestId}
    {n : Int} (ha : ((ws, requestId), n) ∈ s.told deps l s') :
    s.Holds ws requestId n
      ∧ (∃ c next, s.server.handlers ws = .serving c
        ∧ c.phase = .abortLock (some requestId) next)
      ∧ (∃ c', s'.server.handlers ws = .serving c' ∧ c'.Drops requestId)
      ∧ s'.engine.registered (ws, requestId) = none := by
  rcases told_cases h hs with hnil
      | ⟨x, generated, c, c', r, next, rfl, hc, hc', hconn, hp, hengine, heq⟩
  · rw [hnil] at ha
    cases ha
  rw [heq] at ha
  obtain ⟨m, hm, hpair⟩ := List.mem_map.mp ha
  obtain ⟨hk, rfl⟩ := Prod.mk.inj hpair
  obtain ⟨rfl, rfl⟩ := Prod.mk.inj hk
  obtain ⟨hexec, g, hg, hid⟩ := (TRTEngine.told_abort _ _ _).mp (Option.mem_toList.mp hm)
  have hheeding := h.heeding x c hc
  refine ⟨⟨g, hg, hid⟩, ⟨c, next, hc, hp⟩, ⟨c', hc', ?_⟩, ?_⟩
  · -- the turn it belongs to has a task, and the abort leaves none live
    obtain ⟨d, hd, id, t, ht, hrid, -⟩ := h.wanted x r g hg
    cases hd.symm.trans hc
    obtain ⟨t', ht', hplan, -⟩ := hheeding.asks hconn ht
    exact ⟨id, t', ht', hplan ▸ hrid, hheeding.noneLive hp hconn id t' ht'⟩
  · rw [hengine, TRTEngine.registered_abort, if_pos rfl]

/-- A task that is asked to cancel, and what the engine has registered for it. -/
theorem Sound.asked {s s' : Generations deps.sanitizer Socket} {l : GenerationsLabel Socket}
    (h : Sound s) (hchat : deps.hasChatEngine = true) (hs : s.step deps clientId l = some s')
    {ws : Socket} {requestId : RequestId} (ha : s.AsksToCancel s' ws requestId) {n : Int}
    (hn : s.Holds ws requestId n) (hexec : s.engine.hasExecutor = true) :
    ((ws, requestId), n) ∈ s.told deps l s' := by
  obtain ⟨c, c', id, t, t', hc, hc', ht, ht', rfl, hno, hyes⟩ := ha
  have hheeding := h.heeding ws c hc
  -- the connection took a step, and it was the handler's abort of this request
  have haborts : ∀ {label}, c.step deps label = some c' →
      label = .resume ∧ ∃ next, c.phase = .abortLock (some t.plan.requestId) next := by
    intro label hconn
    obtain ⟨u, hu, -, hsame | haborts⟩ := hheeding.asks hconn ht
    · obtain rfl := Option.some.inj (hu.symm.trans ht')
      rw [hno, hyes] at hsame
      cases hsame
    · exact haborts
  have hstays : c' ≠ c := by
    rintro rfl
    obtain rfl := Option.some.inj (ht.symm.trans ht')
    rw [hno] at hyes
    cases hyes
  cases l with
  | server l generated =>
      obtain ⟨server, hserver, rfl⟩ := Option.map_eq_some_iff.mp hs
      obtain ⟨x, phase, hhandlers, hstep⟩ := handlerSteps_of_step hserver
      have hafter : server.handlers ws = .serving c' := hc'
      by_cases hxw : ws = x
      · subst hxw
        have hphase : phase = .serving c' := by
          rw [hhandlers, Function.update_self] at hafter
          exact hafter
        cases hstep with
        | waits _ hne _ => exact absurd hc (hne c)
        | stays => exact absurd (HandlerPhase.serving.inj (hphase.symm.trans hc)) hstays
        | enters hp => rw [hc] at hp; cases hp
        | disconnects hd hdis hconn =>
            cases hd.symm.trans hc
            cases hphase
            obtain ⟨-, next, hp⟩ := haborts hconn
            rw [hp] at hdis
            cases hdis
        | @serves _ d label d' hd hconn =>
            cases hd.symm.trans hc
            cases hphase
            obtain ⟨rfl, next, hp⟩ := haborts hconn
            have hcalls : serverCalls deps s.server (.conn ws .resume) server
                = [((ws, t.plan.requestId), .abort)] := by
              unfold serverCalls
              dsimp only
              rw [hc, hafter]
              dsimp only
              rw [engineCalls_abort hchat hp]
              rfl
            show _ ∈ (s.engine.calls generated (serverCalls deps s.server _ server)).2
            rw [hcalls]
            have htold := (s.engine.told_abort (ws, t.plan.requestId) n).mpr ⟨hexec, hn⟩
            show _ ∈ (s.engine.abort (ws, t.plan.requestId)).2.toList.map _ ++ []
            rw [htold]
            exact List.mem_singleton_self _
      · rw [hhandlers, Function.update_of_ne hxw] at hafter
        exact absurd (HandlerPhase.serving.inj (hafter.symm.trans hc)) hstays
  | finalized x id =>
      obtain ⟨k, rfl⟩ := finalized_cases hs
      exact absurd (HandlerPhase.serving.inj (hc'.symm.trans hc)) hstays
  | shutdown =>
      cases hs
      exact absurd (HandlerPhase.serving.inj (hc'.symm.trans hc)) hstays

/--
**The executor is told of the cancelled generations, each once, and of no others**, in every run of
any number of connections over one engine: no generation stays registered whose task was asked to
cancel; the step that asks tells the executor; whatever it is told of was registered, is told by the
handler's abort of that request, and belongs to a turn that is not live; and it is told of no
request twice.
-/
theorem aborts_cancelled (hchat : deps.hasChatEngine = true) {maxConnections : Nat}
    {hasExecutor : Bool} {s : Generations deps.sanitizer Socket}
    {ls : List (GenerationsLabel Socket)}
    (hrun : exec (step deps clientId) (create deps.sanitizer maxConnections hasExecutor) ls
      = some s) :
    (∀ ws c (id : Nat) t, s.server.handlers ws = .serving c → c.tasks[id]? = some t →
        t.cancelAsked = true → s.engine.registered (ws, t.plan.requestId) = none)
      ∧ (∀ l s', s.step deps clientId l = some s' → ∀ ws requestId n,
        ((s.AsksToCancel s' ws requestId ∧ s.Holds ws requestId n ∧ s.engine.hasExecutor = true) →
            ((ws, requestId), n) ∈ s.told deps l s')
          ∧ (((ws, requestId), n) ∈ s.told deps l s' →
            s.Holds ws requestId n
              ∧ (∃ c next, s.server.handlers ws = .serving c
                ∧ c.phase = .abortLock (some requestId) next)
              ∧ ∃ c', s'.server.handlers ws = .serving c' ∧ c'.Drops requestId))
      ∧ (outputs (step deps clientId) (told deps) (create deps.sanitizer maxConnections hasExecutor)
          ls).Pairwise fun a b => a.1 ≠ b.1 := by
  have hsound := exec_inv (fun _ _ _ h hs => sound_step h hchat hs)
    (sound_create maxConnections hasExecutor) hrun
  refine ⟨?_, ?_, ?_⟩
  · intro ws c id t hc ht hasked
    by_contra hsome
    obtain ⟨g, hg⟩ := Option.ne_none_iff_exists'.mp hsome
    obtain ⟨d, hd, id', u, hu, hid, hno⟩ := hsound.wanted ws _ g hg
    cases hd.symm.trans hc
    obtain rfl := (hsound.heeding ws _ hc).settled.tracked.distinct id' id u t hu ht hid
    obtain rfl := Option.some.inj (hu.symm.trans ht)
    rw [hasked] at hno
    cases hno
  · intro l s' hs ws requestId n
    refine ⟨fun ⟨hasks, hholds, hexec⟩ => hsound.asked hchat hs hasks hholds hexec, fun ha => ?_⟩
    obtain ⟨hholds, hhandler, hdrops, -⟩ := hsound.told hs ha
    exact ⟨hholds, hhandler, hdrops⟩
  · -- once told of, a request has nothing registered any more
    refine outputs_pairwise (I := Sound)
      (K := fun s a => ∃ c, s.server.handlers a.1.1 = .serving c ∧ c.Drops a.1.2
        ∧ s.engine.registered a.1 = none)
      (fun _ _ _ h hs => sound_step h hchat hs) ?_ ?_ ?_ ?_
      (sound_create maxConnections hasExecutor) ls
    · rintro s l s' h hs ⟨⟨ws, requestId⟩, n⟩ ha
      obtain ⟨-, -, ⟨c', hc', hdrops⟩, hnone⟩ := h.told hs ha
      exact ⟨c', hc', hdrops, hnone⟩
    · rintro s l s' h hs ⟨⟨ws, requestId⟩, n⟩ ⟨c, hc, hdrops, hnone⟩
      exact h.dropped hs hc hdrops hnone
    · rintro s l s' h hs ⟨k, n⟩ ⟨c, hc, hdrops, hnone⟩ ⟨⟨ws, requestId⟩, m⟩ hb rfl
      obtain ⟨⟨g, hg, -⟩, -⟩ := h.told hs hb
      exact absurd (hnone.symm.trans hg) (by simp)
    · intro s l s' h hs
      rcases told_cases h hs with hnil | ⟨ws, _, c, c', requestId, next, -, -, -, -, -, -, heq⟩
      · rw [hnil]
        exact List.Pairwise.nil
      · rw [heq]
        cases (s.engine.abort (ws, requestId)).2 <;> simp

/-- A turn is streaming when its client says `cancel`. -/
def cancelledTurn : List (GenerationsLabel Nat) :=
  ([.arrived 0, .authenticated 0 true, .acquired 0, .added 0, .accepted 0,
      .conn 0 (.recv (.start (sampleStart [])) 0), .conn 0 (.sent .ack),
      .conn 0 (.recv (.message (utterance "hello".toList)) 0), .conn 0 .resume, .conn 0 .resume,
      .conn 0 (.task 0 (.run 0)), .conn 0 (.recv .cancel 0), .conn 0 .resume,
      .conn 0 (.engineAborted none), .conn 0 (.task 0 (.chain .cancel 0))]).map
    fun l => .server l (some ⟨some 7⟩)

theorem aborts_cancelled_streaming :
    let executor := outputs (step (.sample true false) fun _ => "client".toList)
      (told (.sample true false)) (create plainSanitizer 1 true) cancelledTurn
    executor = [((0, 0), 7)] ∧ executor.Pairwise fun a b => a.1 ≠ b.1 := by
  have hsome : (exec (step (.sample true false) fun _ => "client".toList)
      (create plainSanitizer 1 true) cancelledTurn).isSome = true := by decide +kernel
  obtain ⟨s, hs⟩ := Option.isSome_iff_exists.mp hsome
  exact ⟨by decide +kernel, (@aborts_cancelled (.sample true false) _ _ _ rfl _ _ _ _ hs).2.2⟩

end Generations

end YapInference
