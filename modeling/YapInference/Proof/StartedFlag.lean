import YapInference.Proof.ConnStep

/-!
# The `started` flag

The flag travels through the handler as a return value, so between a dispatch and the next
receive it is not what the loop holds but what the phase promises. `FlagPromised` says that
every promise but one is the flag the loop already has: the exception is the confirmation
of a `cancel`, which returns `True` whatever came before it.
-/

namespace YapInference

open Py Conn

variable {S : Sanitizer}

/-- A start was accepted. -/
def Conn.accepted (c : Conn S) : Prop := ∃ msg, LoopEvent.startAccepted msg ∈ c.log

/-- The events that only a started session allows. -/
def LoopEvent.needsStart : LoopEvent → Bool
  | .turnDispatched | .startRefused => true
  | _ => false

/-- An accepted start comes before every event that needs one. -/
def Gated (log : List LoopEvent) : Prop :=
  ∀ front event back, log = front ++ event :: back → event.needsStart = true →
    ∃ msg, LoopEvent.startAccepted msg ∈ front

/-- **What is asked of a state**: the flag is true exactly when a start was accepted, and
nothing was dispatched or refused before one. -/
structure FlagTracks (c : Conn S) : Prop where
  flag : c.started = true ↔ c.accepted
  gated : Gated c.log

/-- The confirmation of a `cancel` comes back, if at all, after an accepted start. -/
def ConfirmsAfterStart (c : Conn S) (label : Label) : Prop :=
  ∀ next result b, c.phase = .replying .cancelled next → label = .sent result →
    safeSendText result = .ok b → c.accepted

/-! ## What a phase promises -/

/-- The flag a phase will return to the loop is the one the loop has, cancellations apart. -/
def PromisedBy (started : Bool) (starting : Option (Dict Text Json)) : LoopPhase → Prop
  | .replying frame next =>
      (frame = .cancelled → next = .setStarted true)
        ∧ (next = .startAccepted → started = false ∧ starting.isSome = true)
        ∧ (frame ≠ .cancelled → next ≠ .startAccepted → ∀ b, next.sets = some b → b = started)
  | .closing b => b = started
  | .abortLock _ (.plan _) | .abortEngine (.plan _) | .abortCleanup (.plan _) | .beginning _
  | .tracking _ _ => started = true
  | _ => True

/-- What holds of the flag in every reachable state. -/
structure FlagPromised (c : Conn S) : Prop where
  phase : PromisedBy c.started c.starting c.phase
  /-- The flag does not go back. -/
  accepted : c.accepted → c.started = true

theorem flagPromised_init (cfg : ServerConfig) (clientId : Text) :
    FlagPromised (Conn.init S cfg clientId) :=
  ⟨trivial, fun ⟨_, h⟩ => absurd h (by simp [Conn.init])⟩

/-- Events that accept no start leave it open whether one was accepted. -/
theorem accepted_append {c c' : Conn S} {events : List LoopEvent} (hlog : c'.log = c.log ++ events)
    (hnone : ∀ msg, LoopEvent.startAccepted msg ∉ events) : c'.accepted ↔ c.accepted := by
  unfold Conn.accepted
  rw [hlog]
  constructor
  · intro h
    obtain ⟨msg, hm⟩ := h
    rcases List.mem_append.mp hm with h | h
    · exact ⟨msg, h⟩
    · exact absurd h (hnone msg)
  · intro h
    obtain ⟨msg, hm⟩ := h
    exact ⟨msg, List.mem_append_left _ hm⟩

/-- What a step does to the flag and the log. -/
inductive FlagSteps (c : Conn S) (label : Label) (c' : Conn S) : Prop where
  /-- The flag stays, and what is logged is no acceptance and allowed by the flag. -/
  | stays (started : c'.started = c.started)
      (log : ∃ events, c'.log = c.log ++ events ∧ (∀ msg, LoopEvent.startAccepted msg ∉ events)
        ∧ ∀ event ∈ events, event.needsStart = true → c.started = true)
  | accepts (before : c.started = false) (after : c'.started = true)
      (log : ∃ msg, c'.log = c.log ++ [.startAccepted msg])
  /-- A cancellation is confirmed. -/
  | confirms (after : c'.started = true) (log : c'.log = c.log)
      (phase : ∃ next, c.phase = .replying .cancelled next)
      (sent : ∃ result b, label = .sent result ∧ safeSendText result = .ok b)

theorem flagSteps_silent {c c' : Conn S} {label : Label} (hs : c'.started = c.started)
    (hlog : c'.log = c.log) : FlagSteps c label c' :=
  .stays hs ⟨[], by simp [hlog], fun _ => by simp, fun _ h => absurd h (by simp)⟩

theorem flagSteps_logs {c c' : Conn S} {label : Label} (event : LoopEvent)
    (hs : c'.started = c.started) (hlog : c'.log = c.log ++ [event])
    (hne : ∀ msg, event ≠ .startAccepted msg) (hok : event.needsStart = true → c.started = true) :
    FlagSteps c label c' :=
  .stays hs ⟨[event], hlog, fun msg h => hne msg (List.mem_singleton.mp h).symm,
    fun _ h hn => hok (List.mem_singleton.mp h ▸ hn)⟩

theorem plans_flagSteps {deps : Deps} {c c₀ c' : Conn deps.sanitizer} {label : Label}
    {msg : Dict Text Json} (hp : Plans deps c₀ msg c') (hs : c₀.started = c.started)
    (hstarted : c.started = true)
    (hlog : c₀.log = c.log ∨ c₀.log = c.log ++ [.turnDispatched]) : FlagSteps c label c' := by
  have hpre : ∃ events, c₀.log = c.log ++ events
      ∧ ∀ msg, LoopEvent.startAccepted msg ∉ events := by
    rcases hlog with h | h
    · exact ⟨[], by simp [h], fun _ => by simp⟩
    · exact ⟨[.turnDispatched], h, fun _ => by simp⟩
  obtain ⟨events, hevents, hnone⟩ := hpre
  cases hp with
  | rejected _ _ _ => exact .stays hs ⟨events, hevents, hnone, fun _ _ _ => hstarted⟩
  | @planned session plan _ =>
      refine .stays hs ⟨events ++ [.turnPlanned msg plan], ?_, ?_, fun _ _ _ => hstarted⟩
      · rw [← List.append_assoc, ← hevents]; rfl
      · intro m hm
        rcases List.mem_append.mp hm with h | h
        · exact hnone m h
        · exact absurd (List.mem_singleton.mp h) (by simp)

/-- An exception out of the loop changes nothing about the flag. -/
theorem raisesOut_flagSteps {deps : Deps} {c c₁ : Conn deps.sanitizer} {label : Label} {e : Exc}
    (h : RaisesOut deps c label c₁ e) :
    FlagSteps c label (c₁.raiseLoop deps.sh.lower e) := by
  obtain ⟨phase, -, heq⟩ := raiseLoop_cases deps.sh.lower c₁ e
  rw [heq]
  cases h with
  | received _ _ | parsed _ | sent _ _ | closed _ =>
      exact flagSteps_logs (.loopRaised e) rfl rfl nofun nofun
  | started _ _ _ _ =>
      exact .stays rfl ⟨_, List.append_assoc _ _ _, fun _ => by simp, fun event h hn => by
        rcases List.mem_append.mp h with h | h <;> rw [List.mem_singleton.mp h] at hn <;> cases hn⟩
  | message _ _ hs _ _ =>
      exact .stays rfl ⟨_, List.append_assoc _ _ _, fun _ => by simp, fun _ _ _ => hs⟩
  | aborted hp _ =>
      exact flagSteps_logs (.loopRaised e) rfl rfl nofun nofun

/-- **What a step can do to the flag.** -/
theorem flagSteps_of_step {deps : Deps} {c c' : Conn deps.sanitizer} {label : Label}
    (hj : FlagPromised c) (h : c.step deps label = some c') : FlagSteps c label c' := by
  rcases step_cases h with ⟨rfl, rfl⟩ | ⟨id, event, rfl, ht⟩ | hl
  · exact flagSteps_silent rfl rfl
  · cases ht with
    | streamed _ _ _ _ | ran _ _ _ => exact flagSteps_silent rfl rfl
  · have hphase := hj.phase
    cases hl with
    | raised hr => exact raisesOut_flagSteps hr
    | answered _ _ | pong _ | ending _ | hangup _ | cancelling _ | unstarted _ _ _
    | internalReplied _ | closedEnd _ | cancelled _ | engineAborted _ | abortedConfirms _
    | abortedCloses _ | stopped _ | stoppedStateless _ | markedClosed _ | disconnected _ =>
        exact flagSteps_silent rfl rfl
    | startRefused _ hs _ => exact flagSteps_logs .startRefused rfl rfl nofun fun _ => hs
    | startRejected _ _ _ _ _ _ | startAnswered _ _ _ =>
        exact flagSteps_logs (.startHandled _) rfl rfl nofun nofun
    | messageAborts _ hs _ => exact flagSteps_logs .turnDispatched rfl rfl nofun fun _ => hs
    | messagePlans _ hs _ hplan => exact plans_flagSteps hplan rfl hs (Or.inr rfl)
    | abortedPlans hp hplan =>
        rw [hp] at hphase
        exact plans_flagSteps hplan rfl hphase (Or.inl rfl)
    | began hp =>
        rw [hp] at hphase
        unfold beginSection
        dsimp only
        split
        · exact flagSteps_silent (Eq.symm hphase) rfl
        · exact flagSteps_silent rfl rfl
    | tracked hp =>
        rw [hp] at hphase
        exact flagSteps_silent (Eq.symm hphase) rfl
    | closed hp =>
        rw [hp] at hphase
        exact flagSteps_silent hphase rfl
    | @replied frame next result b hp hb =>
        rw [hp] at hphase
        obtain ⟨hcancelled, hstart, hother⟩ := hphase
        -- the confirmation of a cancellation is the one reply whose flag is not the loop's
        by_cases hf : frame = .cancelled
        · subst hf
          obtain rfl := hcancelled rfl
          exact .confirms rfl rfl ⟨_, hp⟩ ⟨result, b, rfl, hb⟩
        · cases next with
          | «continue» => exact flagSteps_silent rfl rfl
          | endSession => exact flagSteps_silent rfl rfl
          | closeThenSet b => exact flagSteps_silent rfl rfl
          | setStarted b => exact flagSteps_silent (hother hf nofun b rfl) rfl
          | startAccepted =>
              obtain ⟨hbefore, hsome⟩ := hstart rfl
              obtain ⟨msg, hmsg⟩ := Option.isSome_iff_exists.mp hsome
              exact .accepts hbefore rfl ⟨msg, by simp [afterReply, hmsg]⟩

theorem FlagSteps.accepted {c c' : Conn S} {label : Label} (h : FlagSteps c label c')
    (hj : c.accepted → c.started = true) : c'.accepted → c'.started = true := by
  cases h with
  | accepts _ after _ | confirms after _ _ _ => exact fun _ => after
  | stays hs hlog =>
      obtain ⟨events, hlog, hnone, -⟩ := hlog
      rw [accepted_append hlog hnone, hs]
      exact hj

theorem promisedBy_plans {deps : Deps} {c c' : Conn deps.sanitizer} {msg : Dict Text Json}
    (hp : Plans deps c msg c') (hs : c.started = true) : PromisedBy c'.started c'.starting c'.phase := by
  cases hp with
  | rejected hf hn hne =>
      refine ⟨fun h => absurd h hf, fun h => absurd h hne, fun _ _ b hb => ?_⟩
      rw [hn] at hb
      injection hb with hb
      exact hb.symm.trans hs.symm
  | planned _ => exact hs

/-- **Preserved by every step.** -/
theorem flagPromised_step {deps : Deps} {c c' : Conn deps.sanitizer} {label : Label}
    (hj : FlagPromised c) (h : c.step deps label = some c') : FlagPromised c' := by
  refine ⟨?_, (flagSteps_of_step hj h).accepted hj.accepted⟩
  rcases step_cases h with ⟨rfl, rfl⟩ | ⟨id, event, rfl, ht⟩ | hl
  · exact hj.phase
  · cases ht with
    | streamed _ _ _ _ | ran _ _ _ => exact hj.phase
  · have hphase := hj.phase
    cases hl with
    | @raised _ c₁ e _ =>
        obtain ⟨phase, hp, heq⟩ := raiseLoop_cases deps.sh.lower c₁ e
        rw [heq]
        rcases hp with rfl | rfl <;> trivial
    | answered _ hf => exact ⟨fun h => absurd h hf, nofun, nofun⟩
    | pong _ => exact hphase
    | ending _ => exact ⟨nofun, nofun, nofun⟩
    | hangup _ | internalReplied _ | closedEnd _ | closed _ | abortedCloses _ | cancelling _
    | stopped _ | stoppedStateless _ | markedClosed _ | disconnected _ | tracked _ => trivial
    | startRefused _ hs hf =>
        refine ⟨fun h => absurd h hf, nofun, fun _ _ b hb => ?_⟩
        injection hb with hb
        exact hb.symm.trans hs.symm
    | startRejected _ hs _ hf hn hne =>
        refine ⟨fun h => absurd h hf, fun h => absurd h hne, fun _ _ b hb => ?_⟩
        rw [hn] at hb
        injection hb with hb
        exact hb.symm.trans hs.symm
    | startAnswered _ hs _ => exact ⟨nofun, fun _ => ⟨hs, rfl⟩, fun _ h => absurd rfl h⟩
    | unstarted _ hs hf =>
        refine ⟨fun h => absurd h hf, nofun, fun _ _ b hb => ?_⟩
        injection hb with hb
        exact hb.symm.trans hs.symm
    | messageAborts _ hs _ => exact hs
    | messagePlans _ hs _ hplan => exact promisedBy_plans hplan hs
    | abortedPlans hp hplan =>
        rw [hp] at hphase
        exact promisedBy_plans hplan hphase
    | abortedConfirms _ => exact ⟨fun _ => rfl, nofun, fun h => absurd rfl h⟩
    | @cancelled requestId next hp =>
        rw [hp] at hphase
        cases next with
        | plan msg =>
            show PromisedBy c.started c.starting (if _ then _ else _)
            split <;> exact hphase
        | confirmCancel | markClosed =>
            show PromisedBy c.started c.starting (if _ then _ else _)
            split <;> trivial
    | @engineAborted next _ hp =>
        rw [hp] at hphase
        cases next with
        | plan msg => exact hphase
        | confirmCancel | markClosed => trivial
    | began hp =>
        rw [hp] at hphase
        unfold beginSection
        dsimp only
        split
        · trivial
        · exact hphase
    | @replied frame next _ b hp _ =>
        rw [hp] at hphase
        obtain ⟨hcancelled, -, hother⟩ := hphase
        cases next with
        | «continue» | endSession | setStarted _ | startAccepted => trivial
        | closeThenSet b =>
            have hf : frame ≠ .cancelled := fun h => by cases hcancelled h
            exact hother hf nofun b rfl

/-! ## Every run -/

theorem gated_nil : Gated [] := by
  intro front event back h
  exact absurd h.symm (by simp)

theorem Gated.of_append {log more : List LoopEvent} (h : Gated (log ++ more)) : Gated log :=
  fun front event back hlog hn => h front event (back ++ more) (by simp [hlog]) hn

/-- Events may be added when they need no start, or there was one. -/
theorem Gated.append {log events : List LoopEvent} (h : Gated log)
    (hok : ∀ event ∈ events, event.needsStart = true → ∃ msg, .startAccepted msg ∈ log) :
    Gated (log ++ events) := by
  intro front event back hlog hn
  -- the event in question is one of the new ones or one of the old
  rcases List.append_eq_append_iff.mp hlog with ⟨added, hfront, hevents⟩ | ⟨rest, hlog', hrest⟩
  · obtain ⟨msg, hm⟩ := hok event (by rw [hevents]; simp) hn
    exact ⟨msg, by rw [hfront]; exact List.mem_append_left _ hm⟩
  · cases rest with
    | nil =>
        rw [List.nil_append] at hrest
        obtain ⟨msg, hm⟩ := hok event (by rw [← hrest]; simp) hn
        exact ⟨msg, by rw [hlog', List.append_nil] at hm; exact hm⟩
    | cons e rest =>
        simp only [List.cons_append, List.cons.injEq] at hrest
        exact h front event rest (by rw [hlog', hrest.1]) hn

theorem flagTracks_init (cfg : ServerConfig) (clientId : Text) :
    FlagTracks (Conn.init S cfg clientId) :=
  ⟨⟨fun h => absurd h (by simp [Conn.init]), fun ⟨_, h⟩ => absurd h (by simp [Conn.init])⟩,
    gated_nil⟩

/-- A step that does not confirm a cancellation too early keeps the flag true. -/
theorem flagTracks_step {deps : Deps} {c c' : Conn deps.sanitizer} {label : Label}
    (hj : FlagPromised c) (hi : FlagTracks c) (hc : ConfirmsAfterStart c label)
    (h : c.step deps label = some c') : FlagTracks c' := by
  cases flagSteps_of_step hj h with
  | stays hs hlog =>
      obtain ⟨events, hlog, hnone, hok⟩ := hlog
      refine ⟨?_, ?_⟩
      · rw [hs, accepted_append hlog hnone]
        exact hi.flag
      · rw [hlog]
        exact hi.gated.append fun event he hn => hi.flag.mp (hok event he hn)
  | accepts _ after hlog =>
      obtain ⟨msg, hlog⟩ := hlog
      refine ⟨⟨fun _ => ⟨msg, by rw [hlog]; simp⟩, fun _ => after⟩, ?_⟩
      rw [hlog]
      refine hi.gated.append fun event he hn => ?_
      rw [List.mem_singleton.mp he] at hn
      cases hn
  | confirms after hlog hphase hsent =>
      obtain ⟨next, hphase⟩ := hphase
      obtain ⟨result, b, hlabel, hb⟩ := hsent
      obtain ⟨msg, hm⟩ := hc next result b hphase hlabel hb
      exact ⟨⟨fun _ => ⟨msg, hlog ▸ hm⟩, fun _ => after⟩, hlog ▸ hi.gated⟩

/-- A cancellation confirmed too early leaves the flag true without an accepted start. -/
theorem not_flagTracks_step {deps : Deps} {c c' : Conn deps.sanitizer} {label : Label}
    (hj : FlagPromised c) (hc : ¬ ConfirmsAfterStart c label)
    (h : c.step deps label = some c') : ¬ FlagTracks c' := by
  unfold ConfirmsAfterStart at hc
  push Not at hc
  obtain ⟨next, result, b, hp, rfl, hb, hnot⟩ := hc
  have hnext : next = .setStarted true := by
    have hphase := hj.phase
    rw [hp] at hphase
    exact hphase.1 rfl
  subst hnext
  have hc' : c' = c.afterReply (.setStarted true) := by
    have hstep : c.step deps (.sent result) = some (c.afterReply (.setStarted true)) := by
      simp [step, loopStep, hp, hb]
    exact (Option.some.inj (hstep.symm.trans h)).symm
  subst hc'
  exact fun ht => hnot (ht.flag.mp rfl)

/-- What went wrong with the flag stays wrong. -/
theorem not_flagTracks_stays {deps : Deps} {c c' : Conn deps.sanitizer} {label : Label}
    (hj : FlagPromised c) (hq : ¬ FlagTracks c) (h : c.step deps label = some c') :
    ¬ FlagTracks c' := by
  intro h
  obtain ⟨hflag', hgated'⟩ := h
  refine hq ⟨⟨fun hs => ?_, hj.accepted⟩, ?_⟩
  · cases flagSteps_of_step hj h with
    | accepts before _ _ => rw [before] at hs; cases hs
    | stays hsame hlog =>
        obtain ⟨events, hlog, hnone, -⟩ := hlog
        exact (accepted_append hlog hnone).mp (hflag'.mp (hsame.trans hs))
    | confirms after hlog _ _ =>
        obtain ⟨msg, hm⟩ := hflag'.mp after
        exact ⟨msg, hlog ▸ hm⟩
  · cases flagSteps_of_step hj h with
    | accepts _ _ hlog => obtain ⟨msg, hlog⟩ := hlog; rw [hlog] at hgated'; exact hgated'.of_append
    | stays _ hlog => obtain ⟨events, hlog, -⟩ := hlog; rw [hlog] at hgated'; exact hgated'.of_append
    | confirms _ hlog _ _ => exact hlog ▸ hgated'

/--
**The flag tracks accepted starts exactly in the runs that confirm no cancellation before
one.** Over every sequence of messages, sends, failures and task steps.
-/
theorem started_iff_confirmsAfterStart (deps : Deps) (clientId : Text) (labels : List Label)
    (c : Conn deps.sanitizer)
    (h : Lts.exec (Conn.step deps) (Conn.init deps.sanitizer deps.sh.server clientId) labels
      = some c) :
    FlagTracks c ↔ Lts.Meets (Conn.step deps) ConfirmsAfterStart
      (Conn.init deps.sanitizer deps.sh.server clientId) labels :=
  Lts.exec_iff_meets (fun _ _ _ hj hs => flagPromised_step hj hs) (fun _ hi => hi)
    (fun _ _ _ hj hi hc hs => flagTracks_step hj hi hc hs)
    (fun _ _ _ hj _ hc hs => not_flagTracks_step hj hc hs)
    (fun _ _ _ hj hq hs => not_flagTracks_stays hj hq hs)
    (flagPromised_init _ clientId) (flagTracks_init _ clientId) h

/-- A client that opens with `cancel`, and then starts. -/
def cancelFirst : List Label :=
  [.recv .cancel 0, .resume, .resume, .sent .ack, .recv (.start []) 0]

/-- In that run the flag is not tracked, and a cancellation was confirmed too early. -/
theorem started_iff_confirmsAfterStart_cancelFirst :
    ∃ c, Lts.exec (Conn.step (.sample true false))
        (Conn.init plainSanitizer .shipped "client".toList) cancelFirst = some c
      ∧ (FlagTracks c ↔ Lts.Meets (Conn.step (.sample true false)) ConfirmsAfterStart
        (Conn.init plainSanitizer .shipped "client".toList) cancelFirst) :=
  ⟨_, rfl, started_iff_confirmsAfterStart (.sample true false) "client".toList cancelFirst _ rfl⟩

/-- **A cancellation starts a session.** The client never sent a start; its `cancel` is
confirmed, the flag is true, and its first start is refused as a repeated one. -/
theorem started_without_start :
    ∃ c, Lts.exec (Conn.step (.sample true false))
        (Conn.init plainSanitizer .shipped "client".toList) cancelFirst = some c
      ∧ c.started = true ∧ c.log = [.startRefused] ∧ ¬ FlagTracks c := by
  refine ⟨_, rfl, rfl, rfl, fun ht => ?_⟩
  obtain ⟨msg, hm⟩ := ht.flag.mp rfl
  exact absurd (List.mem_singleton.mp hm) (by simp)

end YapInference
