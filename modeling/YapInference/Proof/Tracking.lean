import YapInference.Proof.ConnStep

/-!
# One live task

A task is live while it is neither finished nor asked to cancel. The bookkeeping of a
session names one request and one task, so the invariant ties every live task to both: it
is the active request, and it is the tracked task or about to be. That leaves room for one
live task only, since requests have distinct ids.

The rest of the invariant is where none may be live: from the first critical section of an
abort to the next `begin_request`, and once the session is closed.
-/

namespace YapInference

open Py Conn

variable {S : Sanitizer}

/-- The phases without a live task: between an abort and the turn after it. -/
def LoopPhase.quiescent : LoopPhase → Bool
  | .beginning _ | .abortEngine _ | .abortCleanup _ | .closeLock => true
  | _ => false

/-- The phases at and after the release of the slot. -/
def LoopPhase.disconnects : LoopPhase → Bool
  | .disconnecting | .returned => true
  | _ => false

/-- The phases about which the bookkeeping says nothing special. -/
def LoopPhase.plain : LoopPhase → Bool
  | .tracking _ _ => false
  | phase => !phase.quiescent

/-- No spawned task is live. -/
def NoneLive (c : Conn S) : Prop := ∀ (i : Nat) (t : Task S), c.tasks[i]? = some t → t.isLive = false

/-- The bookkeeping of a session and its tasks. -/
structure Tracked (c : Conn S) : Prop where
  /-- Ids are drawn in order. -/
  ids : ∀ (i : Nat) (t : Task S), c.tasks[i]? = some t → t.plan.requestId < c.nextId
  distinct : ∀ (i j : Nat) (t u : Task S), c.tasks[i]? = some t → c.tasks[j]? = some u →
    t.plan.requestId = u.plan.requestId → i = j
  /-- The turn about to begin is a new request. -/
  beginning : ∀ plan, c.phase = .beginning plan → plan.requestId < c.nextId
    ∧ ∀ (i : Nat) (t : Task S), c.tasks[i]? = some t → t.plan.requestId ≠ plan.requestId
  /-- The task about to be attached is there. -/
  attaching : ∀ requestId task, c.phase = .tracking requestId task →
    ∃ t : Task S, c.tasks[task]? = some t ∧ t.plan.requestId = requestId
  /-- **A live task is the active request, and tracked or about to be.** -/
  live : ∀ (i : Nat) (t : Task S), c.tasks[i]? = some t → t.isLive = true →
    c.session.activeRequestId = some t.plan.requestId
      ∧ (c.session.activeRequestTask = some i ∨ c.phase = .tracking t.plan.requestId i)
  quiescent : c.phase.quiescent = true → NoneLive c
  /-- A session is closed at the very end only, and then no task is live. -/
  closed : c.session.lifecycleState = .closed → c.phase.disconnects = true ∧ NoneLive c

theorem tracked_init (cfg : ServerConfig) (clientId : Text) : Tracked (Conn.init S cfg clientId) where
  ids := fun _ _ h => absurd h (by simp [Conn.init])
  distinct := fun _ _ _ _ h => absurd h (by simp [Conn.init])
  beginning := nofun
  attaching := nofun
  live := fun _ _ h => absurd h (by simp [Conn.init])
  quiescent := nofun
  closed := nofun

/-! ## Reading the invariant -/

theorem Tracked.tracks {c : Conn S} (h : Tracked c) {i : Nat} {t : Task S}
    (ht : c.tasks[i]? = some t) (hl : t.isLive = true)
    (hp : ∀ requestId task, c.phase ≠ .tracking requestId task) :
    c.session.activeRequestTask = some i :=
  (h.live i t ht hl).2.resolve_right (hp _ _)

theorem Tracked.atMostOne {c : Conn S} (h : Tracked c) {i j : Nat} {t u : Task S}
    (ht : c.tasks[i]? = some t) (hu : c.tasks[j]? = some u) (hlt : t.isLive = true)
    (hlu : u.isLive = true) : i = j := by
  have hid := (h.live i t ht hlt).1.symm.trans (h.live j u hu hlu).1
  exact h.distinct i j t u ht hu (Option.some.inj hid)

/-- Until the end the session is open. -/
theorem Tracked.isOpen {c : Conn S} (h : Tracked c) (hd : c.phase.disconnects = false) :
    c.session.lifecycleState ≠ .closed := by
  intro hc
  rw [(h.closed hc).1] at hd
  cases hd

theorem isDone_of_live {t : Task S} (h : t.isLive = true) : t.isDone = false := by
  unfold Task.isLive at h
  rw [Bool.and_eq_true] at h
  simpa using h.1

theorem taskDone_of_get {c : Conn S} {i : Nat} {t : Task S} (ht : c.tasks[i]? = some t) :
    c.taskDone i = t.isDone := by
  simp [taskDone, ht]

/-- Without a running task nothing is live: what `_handle_turn_command` relies on. -/
theorem Tracked.noneLive_of_not_running {c : Conn S} (h : Tracked c) (hp : c.phase = .receiving)
    (hr : hasRunningTask c.taskDone c.session = false) : NoneLive c := by
  intro i t ht
  by_contra hl
  rw [Bool.not_eq_false] at hl
  have htask := h.tracks ht hl (by simp [hp])
  simp [hasRunningTask, htask, taskDone_of_get ht, isDone_of_live hl] at hr

/-- After `cancel_session_requests` nothing is live. -/
theorem Tracked.noneLive_cancelSection {c : Conn S} (h : Tracked c)
    (hp : ∀ requestId task, c.phase ≠ .tracking requestId task) : NoneLive c.cancelSection := by
  have hlive : ∀ (i : Nat) (t : Task S), c.tasks[i]? = some t → t.isLive = true →
      taskToCancel c.taskDone c.session = some i := by
    intro i t ht hl
    simp [taskToCancel, h.tracks ht hl hp, taskDone_of_get ht, isDone_of_live hl]
  intro i t ht
  unfold cancelSection at ht
  dsimp only at ht
  by_contra hl
  rw [Bool.not_eq_false] at hl
  split at ht
  · rename_i id hid
    rw [List.getElem?_modify] at ht
    obtain ⟨t₀, ht₀, hmod⟩ := Option.map_eq_some_iff.mp ht
    split at hmod
    · subst hmod
      simp [Task.isLive, Task.cancel] at hl
    · rename_i hne
      subst hmod
      exact hne (Option.some.inj (hid.symm.trans (hlive i _ ht₀ hl)))
  · rename_i hnone
    rw [hlive i t ht hl] at hnone
    cases hnone

theorem cancelSection_get {c : Conn S} {i : Nat} {t : Task S}
    (h : c.cancelSection.tasks[i]? = some t) :
    ∃ t₀, c.tasks[i]? = some t₀ ∧ t.plan = t₀.plan := by
  unfold cancelSection at h
  dsimp only at h
  split at h
  · rw [List.getElem?_modify] at h
    obtain ⟨t₀, ht₀, hmod⟩ := Option.map_eq_some_iff.mp h
    refine ⟨t₀, ht₀, ?_⟩
    split at hmod <;> (subst hmod; rfl)
  · exact ⟨t, h, rfl⟩

/-! ## Steps of the handler -/

/-- The handler goes on, the bookkeeping untouched. -/
theorem Tracked.moves {c c' : Conn S} (h : Tracked c) (htasks : c'.tasks = c.tasks)
    (hreq : SameRequests c'.session c.session) (hn : c.nextId ≤ c'.nextId)
    (hfrom : c.phase.disconnects = false ∧ ∀ requestId task, c.phase ≠ .tracking requestId task)
    (hto : c'.phase.plain = true) : Tracked c' := by
  have hnotTracking : ∀ requestId task, c'.phase ≠ .tracking requestId task := by
    intro requestId task hp
    rw [hp] at hto
    cases hto
  have hnotQuiescent : c'.phase.quiescent = false := by
    cases hq : c'.phase with
    | beginning _ | abortEngine _ | abortCleanup _ | closeLock => rw [hq] at hto; cases hto
    | _ => rfl
  refine ⟨?_, ?_, ?_, ?_, ?_, ?_, ?_⟩
  · intro i t ht
    rw [htasks] at ht
    exact Nat.lt_of_lt_of_le (h.ids i t ht) hn
  · rw [htasks]; exact h.distinct
  · intro plan hp
    rw [hp] at hnotQuiescent
    cases hnotQuiescent
  · intro requestId task hp; exact absurd hp (hnotTracking _ _)
  · intro i t ht hl
    rw [htasks] at ht
    rw [hreq.id, hreq.task]
    exact ⟨(h.live i t ht hl).1, Or.inl (h.tracks ht hl hfrom.2)⟩
  · intro hq; rw [hnotQuiescent] at hq; cases hq
  · intro hc
    rw [hreq.lifecycle] at hc
    exact absurd hc (h.isOpen hfrom.1)

/-- Nothing is live, and the handler goes on to where nothing may be. -/
theorem tracked_of_noneLive {c c' : Conn S} (h : Tracked c) (htasks : c'.tasks = c.tasks)
    (hn : c.nextId ≤ c'.nextId) (hnone : NoneLive c) (hopen : c'.session.lifecycleState ≠ .closed)
    (hbegin : ∀ plan, c'.phase = .beginning plan →
      plan.requestId < c'.nextId ∧ c.nextId ≤ plan.requestId)
    (htrack : ∀ requestId task, c'.phase ≠ .tracking requestId task) : Tracked c' := by
  have hnone' : NoneLive c' := by
    intro i t ht
    rw [htasks] at ht
    exact hnone i t ht
  refine ⟨?_, ?_, ?_, ?_, ?_, fun _ => hnone', fun hc => absurd hc hopen⟩
  · intro i t ht
    rw [htasks] at ht
    exact Nat.lt_of_lt_of_le (h.ids i t ht) hn
  · rw [htasks]; exact h.distinct
  · intro plan hp
    obtain ⟨h1, h2⟩ := hbegin plan hp
    refine ⟨h1, fun i t ht => ?_⟩
    rw [htasks] at ht
    exact Nat.ne_of_lt (Nat.lt_of_lt_of_le (h.ids i t ht) h2)
  · intro requestId task hp; exact absurd hp (htrack _ _)
  · intro i t ht hl
    rw [hnone' i t ht] at hl
    cases hl

theorem plans_tracked {deps : Deps} {c c₀ c' : Conn deps.sanitizer} {msg : Dict Text Json}
    (hp : Plans deps c₀ msg c') (h : Tracked c) (hnone : NoneLive c) (htasks : c₀.tasks = c.tasks)
    (hid : c₀.nextId = c.nextId) (hopen : c₀.session.lifecycleState ≠ .closed) : Tracked c' := by
  cases hp with
  | rejected _ _ _ =>
      refine tracked_of_noneLive h htasks ?_ hnone hopen nofun nofun
      show c.nextId ≤ c₀.nextId + 2
      omega
  | @planned session plan hplan =>
      obtain ⟨_, _, -, rfl, rfl⟩ := planMessageTurn_planned hplan
      refine tracked_of_noneLive h htasks ?_ hnone hopen ?_ nofun
      · show c.nextId ≤ c₀.nextId + 2
        omega
      · intro plan' hp'
        injection hp' with hp'
        subst hp'
        show c₀.nextId < c₀.nextId + 2 ∧ c.nextId ≤ c₀.nextId
        omega

theorem cleanup_open {s : SessionState} (h : s.lifecycleState ≠ .closed) :
    (cleanupSessionRequests s none true).lifecycleState ≠ .closed := by
  simp [cleanupSessionRequests, h]

/-- `begin_request` and the creation of the task. -/
theorem tracked_began {c : Conn S} (h : Tracked c) {plan : TurnPlan}
    (hp : c.phase = .beginning plan) : Tracked (c.beginSection plan) := by
  have hnone : NoneLive c := h.quiescent (by rw [hp]; rfl)
  obtain ⟨hfresh, hnew⟩ := h.beginning plan hp
  have hopen := h.isOpen (by rw [hp]; rfl)
  have hsec : c.beginSection plan =
      { c with
        session := { c.session with
          activeRequestId := some plan.requestId, cancelRequested := false, lifecycleState := .running }
        phase := .tracking plan.requestId c.tasks.length
        tasks := c.tasks ++ [.create plan] } := by
    simp [beginSection, beginSessionRequest, hopen]
  -- the new task is the last one, and the only one with a request id this large
  have hget : ∀ i t, (c.tasks ++ [Task.create plan])[i]? = some t →
      c.tasks[i]? = some t ∨ (i = c.tasks.length ∧ t = Task.create plan) := by
    intro i t ht
    rw [List.getElem?_append] at ht
    split at ht
    · exact Or.inl ht
    · rename_i hlt
      rw [List.getElem?_singleton] at ht
      split at ht
      · exact Or.inr ⟨by omega, (Option.some.inj ht).symm⟩
      · cases ht
  rw [hsec]
  refine ⟨?_, ?_, nofun, ?_, ?_, nofun, nofun⟩
  · intro i t ht
    rcases hget i t ht with ht | ⟨-, rfl⟩
    · exact h.ids i t ht
    · exact hfresh
  · intro i j t u ht hu hid
    rcases hget i t ht with ht | ⟨rfl, rfl⟩ <;> rcases hget j u hu with hu | ⟨rfl, rfl⟩
    · exact h.distinct i j t u ht hu hid
    · exact absurd hid (hnew i t ht)
    · exact absurd hid.symm (hnew j u hu)
    · rfl
  · intro requestId task hphase
    injection hphase with hid htask
    subst hid; subst htask
    exact ⟨Task.create plan, by simp, rfl⟩
  · intro i t ht hl
    rcases hget i t ht with ht | ⟨rfl, rfl⟩
    · rw [hnone i t ht] at hl; cases hl
    · exact ⟨rfl, Or.inr rfl⟩

/-- `track_request_task`. A task that completed before it is attached is not live. -/
theorem tracked_attached {c : Conn S} (h : Tracked c) {requestId : RequestId} {task : TaskId}
    (hp : c.phase = .tracking requestId task) :
    Tracked { c with
      session := attachRequestTask c.session requestId task
      phase := .receiving
      started := true } := by
  have hopen := h.isOpen (by rw [hp]; rfl)
  obtain ⟨t₀, ht₀, hid₀⟩ := h.attaching requestId task hp
  have hopen' : (attachRequestTask c.session requestId task).lifecycleState ≠ .closed := by
    unfold attachRequestTask
    split
    · exact hopen
    · split <;> exact hopen
  refine ⟨h.ids, h.distinct, nofun, nofun, ?_, nofun, fun hc => absurd hc hopen'⟩
  intro i t ht hl
  obtain ⟨hid, htask⟩ := h.live i t ht hl
  -- the task is attached only while its request is the active one
  by_cases hactive : c.session.activeRequestId = some requestId
  · have hrid : t.plan.requestId = t₀.plan.requestId := by
      rw [hid] at hactive
      rw [hid₀]
      exact Option.some.inj hactive
    obtain rfl := h.distinct i task t t₀ ht ht₀ hrid
    simp [attachRequestTask, hopen, hactive, hid₀, hrid]
  -- its request has completed already, so it is not live and need not be tracked
  · have hsame : attachRequestTask c.session requestId task = c.session := by
      simp [attachRequestTask, hopen, hactive]
    show (attachRequestTask c.session requestId task).activeRequestId = some t.plan.requestId
      ∧ ((attachRequestTask c.session requestId task).activeRequestTask = some i ∨ _)
    rw [hsame]
    refine ⟨hid, Or.inl (htask.resolve_right fun hphase => hactive ?_)⟩
    rw [hp] at hphase
    injection hphase with hrid _
    rw [hid, hrid]

/-- An exception leaves the loop. -/
theorem tracked_raised {deps : Deps} {c c₁ : Conn deps.sanitizer} {label : Label} {e : Exc}
    (h : Tracked c) (hr : RaisesOut deps c label c₁ e) :
    Tracked (c₁.raiseLoop deps.sh.lower e) := by
  obtain ⟨phase, hphase, heq⟩ := raiseLoop_cases deps.sh.lower c₁ e
  rw [heq]
  have hplain : phase.plain = true := by rcases hphase with rfl | rfl <;> rfl
  cases hr with
  | received hp _ | parsed hp | sent hp _ | closed hp =>
      exact h.moves rfl (.refl _) (Nat.le_refl _) (by simp [hp, LoopPhase.disconnects]) hplain
  | @started msg now session _ hp _ _ hb =>
      exact h.moves rfl (bootstrapStartTurn_requests hb) (Nat.le_add_right _ _)
        (by simp [hp, LoopPhase.disconnects]) hplain
  | message hp _ _ _ _ =>
      exact h.moves rfl (.refl _) (Nat.le_add_right _ _)
        (by simp [hp, LoopPhase.disconnects]) hplain
  | aborted hp _ =>
      have hnone : NoneLive c := h.quiescent (by rw [hp]; rfl)
      have hopen := h.isOpen (by rw [hp]; rfl)
      refine tracked_of_noneLive h rfl (Nat.le_add_right _ _) hnone (cleanup_open hopen) ?_ ?_
      · intro plan hpl; rcases hphase with rfl | rfl <;> cases hpl
      · rcases hphase with rfl | rfl <;> exact nofun

/-- **Preserved by every step of the handler.** -/
theorem tracked_loopStep {deps : Deps} {c c' : Conn deps.sanitizer} {label : Label}
    (h : Tracked c) (hs : LoopSteps deps c label c') : Tracked c' := by
  cases hs with
  | raised hr => exact tracked_raised h hr
  | answered hp _ | ending hp | hangup hp | cancelling hp | startRefused hp _ _
  | unstarted hp _ _ | messageAborts hp _ _ | internalReplied hp | closed hp | closedEnd hp
  | stopped hp | stoppedStateless hp =>
      exact h.moves rfl (.refl _) (Nat.le_refl _) (by simp [hp, LoopPhase.disconnects]) rfl
  | pong _ => exact h
  | @startRejected msg now ml session error frame next hp _ hb _ _ _ =>
      exact h.moves rfl (bootstrapStartTurn_requests hb) (Nat.le_add_right _ _)
        (by simp [hp, LoopPhase.disconnects]) rfl
  | @startAnswered msg now ml session hp _ hb =>
      exact h.moves rfl (bootstrapStartTurn_requests hb) (Nat.le_add_right _ _)
        (by simp [hp, LoopPhase.disconnects]) rfl
  | messagePlans hp _ hr hplan =>
      exact plans_tracked hplan h (h.noneLive_of_not_running hp hr) rfl rfl
        (h.isOpen (by rw [hp]; rfl))
  | @replied frame next result b hp _ =>
      cases next <;> exact h.moves rfl (.refl _) (Nat.le_refl _)
        (by simp [hp, LoopPhase.disconnects]) rfl
  | @cancelled requestId next hp =>
      -- whatever was live is the tracked task, and it is asked to cancel here
      have hnone := h.noneLive_cancelSection (by simp [hp])
      refine ⟨?_, ?_, ?_, ?_, ?_, fun _ => hnone, nofun⟩
      · intro i t ht
        obtain ⟨t₀, ht₀, hplan⟩ := cancelSection_get ht
        exact hplan ▸ h.ids i t₀ ht₀
      · intro i j t u ht hu hid
        obtain ⟨t₀, ht₀, hplan⟩ := cancelSection_get ht
        obtain ⟨u₀, hu₀, hplan'⟩ := cancelSection_get hu
        exact h.distinct i j t₀ u₀ ht₀ hu₀ (by rw [← hplan, ← hplan']; exact hid)
      · intro plan hph
        dsimp only at hph
        split at hph <;> cases hph
      · intro rid task hph
        dsimp only at hph
        split at hph <;> cases hph
      · intro i t ht hl
        rw [hnone i t ht] at hl
        cases hl
  | @engineAborted next failure hp =>
      exact tracked_of_noneLive h rfl (Nat.le_refl _) (h.quiescent (by rw [hp]; rfl))
        (h.isOpen (by rw [hp]; rfl)) nofun nofun
  | abortedPlans hp hplan =>
      exact plans_tracked hplan h (h.quiescent (by rw [hp]; rfl)) rfl rfl
        (cleanup_open (h.isOpen (by rw [hp]; rfl)))
  | abortedConfirms hp | abortedCloses hp =>
      exact tracked_of_noneLive h rfl (Nat.le_refl _) (h.quiescent (by rw [hp]; rfl))
        (cleanup_open (h.isOpen (by rw [hp]; rfl))) nofun nofun
  | began hp => exact tracked_began h hp
  | tracked hp => exact tracked_attached h hp
  | markedClosed hp =>
      have hnone : NoneLive c := h.quiescent (by rw [hp]; rfl)
      refine ⟨h.ids, h.distinct, nofun, nofun, ?_, nofun, fun _ => ⟨rfl, hnone⟩⟩
      intro i t ht hl
      rw [hnone i t ht] at hl
      cases hl
  | disconnected hp =>
      refine ⟨h.ids, h.distinct, nofun, nofun, ?_, nofun, fun hc => ⟨rfl, (h.closed hc).2⟩⟩
      intro i t ht hl
      exact ⟨(h.live i t ht hl).1, Or.inl (h.tracks ht hl (by simp [hp]))⟩

/-! ## Steps of the tasks -/

theorem getElem?_set_cases {α : Type} {l : List α} {i j : Nat} {a b : α}
    (h : (l.set i a)[j]? = some b) : (j = i ∧ b = a) ∨ (j ≠ i ∧ l[j]? = some b) := by
  rw [List.getElem?_set] at h
  split at h
  · rename_i hij
    split at h
    · exact Or.inl ⟨hij.symm, (Option.some.inj h).symm⟩
    · cases h
  · rename_i hij
    exact Or.inr ⟨fun he => hij he.symm, h⟩

/-- A task moves, its plan kept and not brought to life, and the bookkeeping untouched. -/
theorem Tracked.taskMoves {c : Conn S} (h : Tracked c) {id : TaskId} {t t' : Task S}
    (ht : c.tasks[id]? = some t) (hplan : t'.plan = t.plan) (hlive : t'.isLive = true → t.isLive = true)
    {session : SessionState} (hreq : SameRequests session c.session) (n : Nat) :
    Tracked (c.moved id t' session n) := by
  -- every task after the step is one before it, with the same plan and no more alive
  have hget : ∀ (i : Nat) (u : Task S), (c.moved id t' session n).tasks[i]? = some u →
      ∃ u₀, c.tasks[i]? = some u₀ ∧ u.plan = u₀.plan ∧ (u.isLive = true → u₀.isLive = true) := by
    intro i u hu
    rcases getElem?_set_cases hu with ⟨rfl, rfl⟩ | ⟨-, hu⟩
    · exact ⟨t, ht, hplan, hlive⟩
    · exact ⟨u, hu, rfl, fun x => x⟩
  have hnone : NoneLive c → NoneLive (c.moved id t' session n) := by
    intro hn i u hu
    obtain ⟨u₀, hu₀, -, hl⟩ := hget i u hu
    by_contra hne
    have := hl (by simpa using hne)
    rw [hn i u₀ hu₀] at this
    cases this
  refine ⟨?_, ?_, ?_, ?_, ?_, fun hq => hnone (h.quiescent hq), ?_⟩
  · intro i u hu
    obtain ⟨u₀, hu₀, hp, -⟩ := hget i u hu
    rw [hp]
    exact Nat.lt_of_lt_of_le (h.ids i u₀ hu₀) (Nat.le_add_right _ _)
  · intro i j u v hu hv hid
    obtain ⟨u₀, hu₀, hp, -⟩ := hget i u hu
    obtain ⟨v₀, hv₀, hp', -⟩ := hget j v hv
    exact h.distinct i j u₀ v₀ hu₀ hv₀ (by rw [← hp, ← hp']; exact hid)
  · intro plan hp
    obtain ⟨h1, h2⟩ := h.beginning plan hp
    refine ⟨Nat.lt_of_lt_of_le h1 (Nat.le_add_right _ _), fun i u hu => ?_⟩
    obtain ⟨u₀, hu₀, hp', -⟩ := hget i u hu
    rw [hp']
    exact h2 i u₀ hu₀
  · intro requestId task hp
    obtain ⟨u, hu, hid⟩ := h.attaching requestId task hp
    by_cases hi : id = task
    · subst hi
      rw [ht] at hu
      obtain rfl := Option.some.inj hu
      refine ⟨t', ?_, hplan ▸ hid⟩
      have hlt : id < c.tasks.length := (List.getElem?_eq_some_iff.mp ht).1
      show (c.tasks.set id t')[id]? = some t'
      rw [List.getElem?_set_self hlt]
    · refine ⟨u, ?_, hid⟩
      show (c.tasks.set id t')[task]? = some u
      rw [List.getElem?_set_ne hi, hu]
  · intro i u hu hl
    obtain ⟨u₀, hu₀, hp, hl₀⟩ := hget i u hu
    obtain ⟨h1, h2⟩ := h.live i u₀ hu₀ (hl₀ hl)
    rw [hp]
    exact ⟨hreq.id.trans h1, h2.imp (fun x => hreq.task.trans x) (fun x => x)⟩
  · intro hc
    obtain ⟨h1, h2⟩ := h.closed (hreq.lifecycle.symm.trans hc)
    exact ⟨h1, hnone h2⟩

/-- A task completes its request, and is finished. -/
theorem Tracked.taskCompletes {c : Conn S} (h : Tracked c) {id : TaskId} {t t' : Task S}
    (ht : c.tasks[id]? = some t) (hplan : t'.plan = t.plan) (hdead : t'.isLive = false) (n : Nat) :
    Tracked (c.moved id t' (completeRequest c.session t.plan.requestId) n) := by
  by_cases hactive : c.session.activeRequestId = some t.plan.requestId
  · -- the active request completes, and with it the only task that could be live
    have hmoved := h.taskMoves ht hplan (fun hl => by rw [hdead] at hl; cases hl) (.refl c.session) n
    have hnone : NoneLive (c.moved id t' c.session n) := by
      intro i u hu
      rcases getElem?_set_cases hu with ⟨rfl, rfl⟩ | ⟨hne, hu₀⟩
      · exact hdead
      · by_contra hl
        rw [Bool.not_eq_false] at hl
        have hid := (h.live i u hu₀ hl).1
        rw [hactive] at hid
        exact hne (h.distinct i id u t hu₀ ht (Option.some.inj hid).symm)
    refine ⟨hmoved.ids, hmoved.distinct, hmoved.beginning, hmoved.attaching, ?_,
      fun _ => hnone, fun hc => ⟨(h.closed ?_).1, hnone⟩⟩
    · intro i u hu hl
      rw [hnone i u hu] at hl
      cases hl
    · have hc' : (completeRequest c.session t.plan.requestId).lifecycleState = .closed := hc
      simp only [completeRequest, cleanupSessionRequests] at hc'
      split at hc'
      · exact hc'
      · dsimp only at hc'
        split at hc'
        · assumption
        · cases hc'
  · rw [completeRequest_stale hactive]
    exact h.taskMoves ht hplan (fun hl => by rw [hdead] at hl; cases hl) (.refl _) n

theorem tracked_taskStep {deps : Deps} {c c' : Conn deps.sanitizer} {id : TaskId}
    {event : TaskEvent} (h : Tracked c) (hs : TaskSteps deps c id event c') : Tracked c' := by
  have hlive : ∀ {t : Task deps.sanitizer} {phase response}, t.isDone = false →
      ({ t with phase := phase, cancelPending := false, response := response } :
        Task deps.sanitizer).isLive = true → t.isLive = true := by
    intro t phase response hd hl
    simp only [Task.isLive, Bool.and_eq_true] at hl ⊢
    exact ⟨by simp [hd], hl.2⟩
  cases hs with
  | @streamed t turn turn' event now ht _ hp _ =>
      refine h.taskMoves ht ?_ (hlive ?_) (commitAppends_writes _ _ _).history.requests 0
      · rfl
      · simp [Task.isDone, hp]
  | @ran t event session phase ht _ hrun =>
      have hd : t.isDone = false := by
        unfold Task.isDone
        split
        · rename_i hp
          rw [hp, runTask_finished] at hrun
          cases hrun
        · rfl
      rcases runTask_requests hrun with hreq | ⟨rfl, rfl⟩
      · refine h.taskMoves ht ?_ (hlive hd) hreq 1
        rfl
      · refine h.taskCompletes ht ?_ ?_ 1 <;> rfl

/-- **Preserved by every step.** -/
theorem tracked_step {deps : Deps} {c c' : Conn deps.sanitizer} {label : Label} (h : Tracked c)
    (hs : c.step deps label = some c') : Tracked c' := by
  rcases step_cases hs with ⟨rfl, rfl⟩ | ⟨id, event, rfl, ht⟩ | hl
  · exact ⟨h.ids, h.distinct, h.beginning, h.attaching, h.live, h.quiescent, h.closed⟩
  · exact tracked_taskStep h ht
  · exact tracked_loopStep h hl

theorem tracked_run {deps : Deps} {clientId : Text} {labels : List Label} {c : Conn deps.sanitizer}
    (h : Lts.exec (Conn.step deps) (Conn.init deps.sanitizer deps.sh.server clientId) labels
      = some c) : Tracked c :=
  Lts.exec_inv (fun _ _ _ hi hs => tracked_step hi hs) (tracked_init _ clientId) h

/-! ## Every reachable state -/

/--
**At most one task is live, it is the tracked one, and stale completions do nothing**, in
every state any interleaving of the handler and its tasks can reach.
-/
theorem oneLiveTask_reachable (deps : Deps) (clientId : Text) (labels : List Label)
    (c : Conn deps.sanitizer)
    (h : Lts.exec (Conn.step deps) (Conn.init deps.sanitizer deps.sh.server clientId) labels
      = some c) :
    (∀ (i j : Nat) (t u : Task deps.sanitizer), c.tasks[i]? = some t → c.tasks[j]? = some u →
        t.isLive = true → u.isLive = true → i = j)
      ∧ (∀ (i : Nat) (t : Task deps.sanitizer), c.tasks[i]? = some t → t.isLive = true →
        (∀ requestId task, c.phase ≠ .tracking requestId task) →
        c.session.activeRequestTask = some i)
      ∧ (∀ requestId, c.session.activeRequestId ≠ some requestId →
        completeRequest c.session requestId = c.session)
      ∧ ∀ (i : Nat) (t : Task deps.sanitizer) (c' : Conn deps.sanitizer),
        c.tasks[i]? = some t → c.session.activeRequestId ≠ some t.plan.requestId →
        c.step deps (.task i .complete) = some c' → c'.session = c.session := by
  have ht := tracked_run h
  refine ⟨fun i j t u hi hj hlt hlu => ht.atMostOne hi hj hlt hlu,
    fun i t hi hl hp => ht.tracks hi hl hp, fun _ hne => completeRequest_stale hne, ?_⟩
  intro i t c' hi hne hs
  cases taskSteps_of_taskStep (show c.taskStep deps i .complete = some c' from hs) with
  | @ran t₀ _ session phase ht₀ _ hrun =>
      rw [hi] at ht₀
      obtain rfl := Option.some.inj ht₀
      show session = c.session
      rw [runTask_complete hrun]
      exact completeRequest_stale hne

/-- A start, and a message whose task is spawned and attached. -/
def oneTurn : List Label :=
  [.recv (.start (sampleStart [])) 0, .sent .ack, .recv (.message (utterance "hello".toList)) 0,
    .resume, .resume]

theorem oneLiveTask_reachable_oneTurn :
    ∃ c t, Lts.exec (Conn.step (.sample true false))
        (Conn.init plainSanitizer .shipped "client".toList) oneTurn = some c
      ∧ c.tasks[0]? = some t ∧ t.isLive = true ∧ c.session.activeRequestTask = some 0 := by
  have hrun : (Lts.exec (Conn.step (.sample true false))
      (Conn.init plainSanitizer .shipped "client".toList) oneTurn).map
        (fun c => (c.phase.plain, c.tasks[0]?.map Task.isLive)) = some (true, some true) := by
    decide +kernel
  obtain ⟨c, hc, hobs⟩ := Option.map_eq_some_iff.mp hrun
  obtain ⟨hplain, hlive⟩ := Prod.mk.inj hobs
  obtain ⟨t, ht, hl⟩ := Option.map_eq_some_iff.mp hlive
  refine ⟨c, t, hc, ht, hl, ?_⟩
  refine (oneLiveTask_reachable (.sample true false) "client".toList oneTurn c hc).2.1 0 t ht hl ?_
  intro requestId task hp
  rw [hp] at hplain
  cases hplain

end YapInference
