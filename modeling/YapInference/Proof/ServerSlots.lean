import YapInference.WebSocket.Server
import YapInference.Proof.Admission
import YapInference.Proof.Cleanup

/-!
# The slots of the whole server

What a socket has of the shared handler at any moment is its `Standing`: the calls that are
waiting for it, its place in the set, the calls that are about to remove it. A step of the handler
changes the standing of its own socket only, and by a fixed amount. A connection handler makes the
calls in one order, so its phase determines the standing, and with that a socket is connected once
and disconnected once, which is all that admission control asks for.

Seen from one socket nothing else moves: what is served to it is a run of the connection alone.
-/

namespace YapInference

open Py Lts Conn

variable {Socket : Type} [DecidableEq Socket]

/-! ## What a socket has of the shared handler -/

/-- What a socket has of the shared handler. -/
structure Standing where
  /-- The calls of `connect` in flight. -/
  waiting : Nat
  /-- Its place in the set. -/
  active : Nat
  /-- The calls of `disconnect` before the lock. -/
  removing : Nat
  deriving DecidableEq

/-- Nothing at all. -/
def Standing.none : Standing := ⟨0, 0, 0⟩

def Admission.standing (a : Admission Socket) (ws : Socket) : Standing :=
  ⟨a.acquiring.count ws + a.adding.count ws, a.handler.places ws, a.removing.count ws⟩

/-- Whose call it is. -/
def AdmissionStep.socket : AdmissionStep Socket → Socket
  | .connect ws | .acquired ws | .timedOut ws | .added ws | .lockFailed ws | .disconnect ws
  | .removed ws | .released ws => ws

/-- What a step does to the standing of its socket. -/
def AdmissionStep.changes (l : AdmissionStep Socket) (s : Standing) : Standing :=
  match l with
  | .connect _ => { s with waiting := s.waiting + 1 }
  | .acquired _ | .released _ => s
  | .timedOut _ | .lockFailed _ => { s with waiting := s.waiting - 1 }
  | .added _ => { s with waiting := s.waiting - 1, active := 1 }
  | .disconnect _ => { s with removing := s.removing + 1 }
  | .removed _ => { s with active := 0, removing := s.removing - 1 }

namespace Admission

variable {a a' : Admission Socket}

theorem places_add (handler : ConnectionHandler Socket) (ws x : Socket) :
    (handler.add ws).places x = if ws = x then 1 else handler.places x := by
  by_cases h : ws = x
  · subst h; simp [ConnectionHandler.places, ConnectionHandler.add]
  · simp [ConnectionHandler.places, ConnectionHandler.add, h, Ne.symm h]

theorem places_remove (handler : ConnectionHandler Socket) (ws x : Socket) :
    (handler.remove ws).1.places x = if ws = x then 0 else handler.places x := by
  unfold ConnectionHandler.remove
  split
  · by_cases h : ws = x
    · subst h; simp [ConnectionHandler.places]
    · simp [ConnectionHandler.places, h, Ne.symm h]
  · rename_i hmem
    by_cases h : ws = x
    · subst h; simp [ConnectionHandler.places, hmem]
    · simp [h]

/-- **A step changes the standing of its own socket**, and of no other. -/
theorem standing_step {l : AdmissionStep Socket} (hs : a.step l = some a') (x : Socket) :
    a'.standing x = if l.socket = x then l.changes (a.standing x) else a.standing x := by
  by_cases hx : l.socket = x
  · subst hx
    rw [if_pos rfl]
    cases l with
    | connect ws =>
        cases hs
        simp only [standing, AdmissionStep.changes, AdmissionStep.socket, List.count_append,
          List.count_singleton_self, Standing.mk.injEq, and_true]
        omega
    | acquired ws =>
        simp only [step] at hs
        split at hs
        · rename_i hmem
          have hpos := List.count_pos_iff.mpr hmem
          obtain ⟨handler, hacquire, rfl⟩ := Option.map_eq_some_iff.mp hs
          obtain ⟨-, rfl⟩ := ConnectionHandler.acquire_spec hacquire
          simp only [standing, AdmissionStep.changes, AdmissionStep.socket, List.count_append,
            List.count_singleton_self, List.count_erase_self, ConnectionHandler.places,
            Standing.mk.injEq, and_true]
          omega
        · cases hs
    | timedOut ws | lockFailed ws =>
        simp only [step] at hs
        split at hs
        · rename_i hmem
          have hpos := List.count_pos_iff.mpr hmem
          cases hs
          simp only [standing, AdmissionStep.changes, AdmissionStep.socket, List.count_erase_self,
            ConnectionHandler.places_release, Standing.mk.injEq, and_true]
          omega
        · cases hs
    | added ws =>
        simp only [step] at hs
        split at hs
        · rename_i hmem
          have hpos := List.count_pos_iff.mpr hmem
          cases hs
          simp only [standing, AdmissionStep.changes, AdmissionStep.socket, List.count_erase_self,
            places_add, if_true, Standing.mk.injEq, and_true]
          omega
        · cases hs
    | disconnect ws =>
        cases hs
        simp [standing, AdmissionStep.changes, AdmissionStep.socket]
    | removed ws =>
        simp only [step] at hs
        split at hs
        · cases hs
          simp [standing, AdmissionStep.changes, AdmissionStep.socket, places_remove]
        · cases hs
    | released ws =>
        simp only [step] at hs
        split at hs
        · cases hs
          simp [standing, AdmissionStep.changes]
        · cases hs
  · rw [if_neg hx]
    have hother : ∀ ws, ws ≠ x →
        [ws].count x = 0 ∧ ∀ calls : List Socket, (calls.erase ws).count x = calls.count x :=
      fun ws hne => ⟨by simp [hne], fun _ => List.count_erase_of_ne hne.symm⟩
    cases l with
    | connect ws | disconnect ws =>
        cases hs
        simp [standing, (hother ws hx).1]
    | acquired ws =>
        obtain ⟨hone, herase⟩ := hother ws hx
        simp only [step] at hs
        split at hs
        · obtain ⟨handler, hacquire, rfl⟩ := Option.map_eq_some_iff.mp hs
          obtain ⟨-, rfl⟩ := ConnectionHandler.acquire_spec hacquire
          simp [standing, ConnectionHandler.places, hone, herase]
        · cases hs
    | timedOut ws | lockFailed ws | added ws | removed ws | released ws =>
        obtain ⟨-, herase⟩ := hother ws hx
        simp only [step] at hs
        split at hs
        · cases hs
          simp [standing, herase, places_add, places_remove, show ws ≠ x from hx]
        · cases hs

end Admission

/-! ## What the phase of a handler says of it -/

/-- The standing of a socket that is served. -/
def LoopPhase.standing : LoopPhase → Standing
  | .disconnecting => ⟨0, 1, 1⟩
  | .returned => .none
  | _ => ⟨0, 1, 0⟩

/-- The standing of a socket whose handler is in this phase. -/
def HandlerPhase.standing {S : Sanitizer} : HandlerPhase S → Standing
  | .absent | .authenticating | .rejecting | .refused => .none
  | .connecting => ⟨1, 0, 0⟩
  | .accepting => ⟨0, 1, 0⟩
  | .acceptFailed => ⟨0, 1, 1⟩
  | .serving c => c.phase.standing

/-- Does the connection hold its slot? -/
def LoopPhase.holds : LoopPhase → Bool
  | .returned => false
  | _ => true

/-- Does the handler hold a slot, with its socket in the set? -/
def HandlerPhase.holds {S : Sanitizer} : HandlerPhase S → Bool
  | .accepting | .acceptFailed => true
  | .serving c => c.phase.holds
  | _ => false

/-- Is the handler done with its socket, or not begun? -/
def HandlerPhase.finished {S : Sanitizer} : HandlerPhase S → Bool
  | .absent | .refused => true
  | .serving c => !c.phase.holds
  | _ => false

/-- Before the cleanup of the slot. -/
def LoopPhase.served : LoopPhase → Bool
  | .disconnecting | .returned => false
  | _ => true

theorem LoopPhase.standing_of_served {phase : LoopPhase} (h : phase.served = true) :
    phase.standing = ⟨0, 1, 0⟩ ∧ phase.isDisconnecting = false := by
  cases phase <;> first | exact ⟨rfl, rfl⟩ | cases h

/-- A connection that has not come to `disconnect` comes to it, or goes on. -/
theorem loopSteps_served {deps : Deps} {c c' : Conn deps.sanitizer} {label : Label}
    (hs : LoopSteps deps c label c') :
    (c.phase.served = true ∧ (c'.phase.served = true ∨ c'.phase = .disconnecting))
      ∨ (c.phase = .disconnecting ∧ label = .resume ∧ c'.phase = .returned) := by
  have hplans : ∀ {c₀ : Conn deps.sanitizer} {msg}, Plans deps c₀ msg c' →
      c'.phase.served = true := by
    intro c₀ msg hp
    cases hp with
    | rejected _ _ _ | planned _ => rfl
  cases hs with
  | @raised _ c₁ e hr =>
      obtain ⟨phase, hphase, heq⟩ := raiseLoop_cases deps.sh.lower c₁ e
      rw [heq]
      refine Or.inl ⟨?_, Or.inl ?_⟩
      · cases hr with
        | received hp _ | parsed hp | sent hp _ | closed hp | aborted hp _ => rw [hp]; rfl
        | started hp _ _ _ | message hp _ _ _ _ => rw [hp]; rfl
      · rcases hphase with rfl | rfl <;> rfl
  | answered hp _ | ending hp | hangup hp | cancelling hp | startRefused hp _ _
  | startRejected hp _ _ _ _ _ | startAnswered hp _ _ | unstarted hp _ _ | messageAborts hp _ _
  | internalReplied hp | closed hp | closedEnd hp | engineAborted hp | abortedConfirms hp
  | abortedCloses hp | tracked hp | stopped hp => exact Or.inl ⟨by rw [hp]; rfl, Or.inl rfl⟩
  | pong hp => exact Or.inl ⟨by rw [hp]; rfl, Or.inl (by rw [hp]; rfl)⟩
  | messagePlans hp _ _ hplan => exact Or.inl ⟨by rw [hp]; rfl, Or.inl (hplans hplan)⟩
  | abortedPlans hp hplan => exact Or.inl ⟨by rw [hp]; rfl, Or.inl (hplans hplan)⟩
  | @replied frame next _ b hp _ =>
      exact Or.inl ⟨by rw [hp]; rfl, Or.inl (by cases next <;> rfl)⟩
  | @cancelled requestId next hp =>
      refine Or.inl ⟨by rw [hp]; rfl, Or.inl ?_⟩
      dsimp only
      split <;> rfl
  | @began plan hp =>
      refine Or.inl ⟨by rw [hp]; rfl, Or.inl ?_⟩
      unfold beginSection
      dsimp only
      split <;> rfl
  | stoppedStateless hp | markedClosed hp => exact Or.inl ⟨by rw [hp]; rfl, Or.inr rfl⟩
  | disconnected hp => exact Or.inr ⟨hp, rfl, rfl⟩

/-- What a step of a connection makes of the standing of its socket. -/
theorem conn_standing {deps : Deps} {c c' : Conn deps.sanitizer} {label : Label}
    (hs : c.step deps label = some c')
    (hl : (c.phase.isDisconnecting && label.isResume) = false) :
    c'.phase.standing
      = if !c.phase.isDisconnecting && c'.phase.isDisconnecting then
          { c.phase.standing with removing := c.phase.standing.removing + 1 }
        else c.phase.standing := by
  have hsame : c'.phase = c.phase → c'.phase.standing
      = if !c.phase.isDisconnecting && c'.phase.isDisconnecting then
          { c.phase.standing with removing := c.phase.standing.removing + 1 }
        else c.phase.standing := by
    intro h
    rw [h]
    cases c.phase.isDisconnecting <;> simp
  rcases step_cases hs with ⟨rfl, rfl⟩ | ⟨id, event, rfl, ht⟩ | hloop
  · exact hsame rfl
  · cases ht with
    | streamed _ _ _ _ | ran _ _ _ => exact hsame rfl
  · rcases loopSteps_served hloop with ⟨hserved, hserved' | hdis⟩ | ⟨hdis, rfl, -⟩
    · obtain ⟨h1, h2⟩ := LoopPhase.standing_of_served hserved
      obtain ⟨h1', h2'⟩ := LoopPhase.standing_of_served hserved'
      simp [h1, h1', h2']
    · obtain ⟨h1, h2⟩ := LoopPhase.standing_of_served hserved
      rw [hdis, h1, h2]
      rfl
    · simp [hdis, LoopPhase.isDisconnecting, Label.isResume] at hl

/-- The critical section of `disconnect`. -/
theorem conn_disconnects {deps : Deps} {c c' : Conn deps.sanitizer}
    (hp : c.phase.isDisconnecting = true) (hs : c.step deps .resume = some c') :
    c.phase.standing = ⟨0, 1, 1⟩ ∧ c'.phase.standing = .none := by
  have hdis : c.phase = .disconnecting := by
    unfold LoopPhase.isDisconnecting at hp
    split at hp
    · assumption
    · cases hp
  rcases loopSteps_served (loopSteps_of_loopStep hs) with ⟨hserved, -⟩ | ⟨-, -, hret⟩
  · rw [hdis] at hserved; cases hserved
  · rw [hdis, hret]
    exact ⟨rfl, rfl⟩

/-! ## The invariant -/

namespace Server

variable {deps : Deps}

/-- What holds of the server between any two steps. -/
structure Accounted (clientId : Socket → Text) (maxConnections : Nat)
    (s : Server deps.sanitizer Socket) : Prop where
  limit : s.admission.handler.maxConnections = maxConnections
  balanced : s.admission.Balanced
  once : s.admission.Once
  /-- The phase of a handler says what its socket has. -/
  standing : ∀ ws, s.admission.standing ws = (s.handlers ws).standing
  /-- What is served is a run of the connection. -/
  served : ∀ ws c, s.handlers ws = .serving c → ∃ labels,
    exec (Conn.step deps) (Conn.init deps.sanitizer deps.sh.server (clientId ws)) labels = some c

theorem accounted_create (clientId : Socket → Text) (maxConnections : Nat) :
    Accounted clientId maxConnections
      (create deps.sanitizer maxConnections : Server deps.sanitizer Socket) where
  limit := rfl
  balanced := Admission.balanced_create maxConnections
  once := Admission.once_create maxConnections
  standing := fun _ => rfl
  served := fun _ _ h => by cases h

section Moves

variable {clientId : Socket → Text} {maxConnections : Nat}
  {s s' : Server deps.sanitizer Socket} {ws : Socket}

/-- A handler moves on, its standing the same. -/
theorem Accounted.moves (h : Accounted clientId maxConnections s)
    {phase : HandlerPhase deps.sanitizer}
    (hstanding : phase.standing = (s.handlers ws).standing)
    (hserved : ∀ c, phase = .serving c → ∃ labels,
      exec (Conn.step deps) (Conn.init deps.sanitizer deps.sh.server (clientId ws)) labels
        = some c) : Accounted clientId maxConnections (s.moves ws phase) where
  limit := h.limit
  balanced := h.balanced
  once := h.once
  standing := by
    intro x
    show s.admission.standing x = (Function.update s.handlers ws phase x).standing
    by_cases hx : x = ws
    · subst hx
      rw [Function.update_self, hstanding, h.standing]
    · rw [Function.update_of_ne hx, h.standing]
  served := by
    intro x c hp
    have hp : Function.update s.handlers ws phase x = .serving c := hp
    by_cases hx : x = ws
    · subst hx
      rw [Function.update_self] at hp
      exact hserved c hp
    · rw [Function.update_of_ne hx] at hp
      exact h.served x c hp

/-- A handler moves on by a call, its standing changed as the call changes it. -/
theorem Accounted.calls (h : Accounted clientId maxConnections s) {l : AdmissionStep Socket}
    {phase : HandlerPhase deps.sanitizer} (hs : s.calls ws l phase = some s')
    (hsocket : l.socket = ws) (honce : s.admission.ConnectsOnce l)
    (hstanding : phase.standing = l.changes (s.handlers ws).standing)
    (hserved : ∀ c, phase = .serving c → ∃ labels,
      exec (Conn.step deps) (Conn.init deps.sanitizer deps.sh.server (clientId ws)) labels
        = some c) : Accounted clientId maxConnections s' := by
  obtain ⟨admission, hstep, rfl⟩ := Option.map_eq_some_iff.mp hs
  have hchanges := Admission.standing_step hstep
  refine ⟨(Admission.moves_step hstep).limit.trans h.limit,
    Admission.balanced_step h.balanced (Admission.addsNew_of_once h.once hstep) hstep,
    Admission.once_step h.once honce hstep, ?_, ?_⟩
  · intro x
    show admission.standing x = (Function.update s.handlers ws phase x).standing
    rw [hchanges x, hsocket]
    by_cases hx : ws = x
    · subst hx
      rw [if_pos rfl, Function.update_self, hstanding, h.standing]
    · rw [if_neg hx, Function.update_of_ne (Ne.symm hx), h.standing]
  · intro x c hp
    have hp : Function.update s.handlers ws phase x = .serving c := hp
    by_cases hx : x = ws
    · subst hx
      rw [Function.update_self] at hp
      exact hserved c hp
    · rw [Function.update_of_ne hx] at hp
      exact h.served x c hp

end Moves

/-- A connection takes a step that the shared handler has no part in. -/
theorem accounted_connStep {clientId : Socket → Text} {maxConnections : Nat}
    {s s' : Server deps.sanitizer Socket} {ws : Socket} {c : Conn deps.sanitizer} {label : Label}
    (h : Accounted clientId maxConnections s) (hc : s.handlers ws = .serving c)
    (hl : (c.phase.isDisconnecting && label.isResume) = false)
    (hs : s.connStep deps ws c label = some s') : Accounted clientId maxConnections s' := by
  unfold connStep at hs
  split at hs
  · cases hs
  · rename_i c' hstep
    have hstanding := conn_standing hstep hl
    have hserved : ∀ c₁, HandlerPhase.serving c' = .serving c₁ → ∃ labels,
        exec (Conn.step deps) (Conn.init deps.sanitizer deps.sh.server (clientId ws)) labels
          = some c₁ := by
      intro c₁ hc₁
      cases hc₁
      obtain ⟨labels, hrun⟩ := h.served ws c hc
      exact ⟨labels ++ [label], exec_append_eq_some.mpr ⟨c, hrun, by simp [exec, hstep]⟩⟩
    split at hs
    · rename_i hcalls
      rw [if_pos hcalls] at hstanding
      exact h.calls hs rfl trivial (by rw [hc]; exact hstanding) hserved
    · rename_i hcalls
      rw [if_neg hcalls] at hstanding
      cases hs
      exact h.moves (by rw [hc]; exact hstanding) hserved

/-- **Preserved by every step of every handler.** -/
theorem accounted_step {clientId : Socket → Text} {maxConnections : Nat}
    {s s' : Server deps.sanitizer Socket} {l : ServerLabel Socket}
    (h : Accounted clientId maxConnections s) (hs : s.step deps clientId l = some s') :
    Accounted clientId maxConnections s' := by
  -- a handler that serves nothing has nothing to account for
  have hidle : ∀ {ws} {phase : HandlerPhase deps.sanitizer},
      (∀ c, phase ≠ .serving c) → ∀ c, phase = .serving c → ∃ labels,
        exec (Conn.step deps) (Conn.init deps.sanitizer deps.sh.server (clientId ws)) labels
          = some c :=
    fun hne c hc => absurd hc (hne c)
  cases l with
  | arrived ws | authRaised ws | rejected ws =>
      simp only [step] at hs
      split at hs
      · rename_i hp
        cases hs
        exact h.moves (by rw [hp]; rfl) (hidle fun _ hc => by cases hc)
      · cases hs
  | authenticated ws granted =>
      simp only [step] at hs
      split at hs
      · rename_i hp
        split at hs
        · -- nothing is under way for a socket that is being authenticated
          have hnone : s.admission.standing ws = .none := by rw [h.standing, hp]; rfl
          have hwaiting := congrArg Standing.waiting hnone
          have hactive := congrArg Standing.active hnone
          simp only [Admission.standing, Standing.none] at hwaiting hactive
          refine h.calls hs rfl ⟨?_, ?_, ConnectionHandler.places_eq_zero.mp hactive⟩
            (by rw [hp]; rfl) (hidle fun _ hc => by cases hc)
          · exact List.count_eq_zero.mp (by omega)
          · exact List.count_eq_zero.mp (by omega)
        · cases hs
          exact h.moves (by rw [hp]; rfl) (hidle fun _ hc => by cases hc)
      · cases hs
  | acquired ws | timedOut ws | added ws | lockFailed ws | acceptRaised ws =>
      simp only [step] at hs
      split at hs
      · rename_i hp
        exact h.calls hs rfl trivial (by rw [hp]; rfl) (hidle fun _ hc => by cases hc)
      · cases hs
  | accepted ws =>
      simp only [step] at hs
      split at hs
      · rename_i hp
        cases hs
        refine h.moves (by rw [hp]; rfl) fun c hc => ?_
        cases hc
        exact ⟨[], rfl⟩
      · cases hs
  | conn ws label =>
      simp only [step] at hs
      split at hs
      · rename_i c hp
        split at hs
        · cases hs
        · rename_i hl
          exact accounted_connStep h hp (Bool.eq_false_iff.mpr hl) hs
      · cases hs
  | removed ws =>
      simp only [step] at hs
      split at hs
      · rename_i hp
        exact h.calls hs rfl trivial (by rw [hp]; rfl) (hidle fun _ hc => by cases hc)
      · rename_i c hp
        split at hs
        · rename_i hdis
          obtain ⟨c', hstep, hs⟩ := Option.bind_eq_some_iff.mp hs
          obtain ⟨hstanding, hstanding'⟩ := conn_disconnects hdis hstep
          refine h.calls hs rfl trivial ?_ fun c₁ hc₁ => ?_
          · rw [hp]
            show c'.phase.standing = AdmissionStep.changes _ c.phase.standing
            rw [hstanding, hstanding']
            rfl
          · cases hc₁
            obtain ⟨labels, hrun⟩ := h.served ws c hp
            exact ⟨labels ++ [.resume], exec_append_eq_some.mpr ⟨c, hrun, by simp [exec, hstep]⟩⟩
        · cases hs
      · cases hs
  | released ws =>
      exact h.calls hs rfl trivial rfl fun c hc => h.served ws c hc

/-! ## Every run -/

/-- What the standing of a handler's socket says of its place in the set. -/
theorem active_standing (phase : HandlerPhase deps.sanitizer) :
    phase.standing.active = if phase.holds then 1 else 0 := by
  cases phase with
  | serving c =>
      show c.phase.standing.active = if c.phase.holds then 1 else 0
      cases c.phase <;> rfl
  | absent | authenticating | rejecting | connecting | accepting | acceptFailed | refused => rfl

theorem standing_of_finished {phase : HandlerPhase deps.sanitizer} (h : phase.finished = true) :
    phase.standing = .none := by
  cases phase with
  | absent | refused => rfl
  | serving c =>
      have hret : c.phase = .returned := by
        have hholds : (!c.phase.holds) = true := h
        cases hp : c.phase <;> rw [hp] at hholds <;> first | rfl | cases hholds
      show c.phase.standing = .none
      rw [hret]
      rfl
  | authenticating | rejecting | connecting | accepting | acceptFailed => cases h

theorem Accounted.mem_iff {clientId : Socket → Text} {maxConnections : Nat}
    {s : Server deps.sanitizer Socket} (h : Accounted clientId maxConnections s) (ws : Socket) :
    ws ∈ s.admission.handler.activeConnections ↔ (s.handlers ws).holds = true := by
  have hactive := (congrArg Standing.active (h.standing ws)).trans (active_standing _)
  simp only [Admission.standing, ConnectionHandler.places] at hactive
  split at hactive <;> split at hactive <;> simp_all

/-- A connection knows whether it has its slot. -/
theorem slotHeld_iff {clientId : Text} {labels : List Label} {c : Conn deps.sanitizer}
    (h : exec (Conn.step deps) (Conn.init deps.sanitizer deps.sh.server clientId) labels = some c) :
    c.slotHeld = true ↔ c.phase.holds = true := by
  have hinv : Tracked c ∧ Unwound c :=
    exec_inv (I := fun c => Tracked c ∧ Unwound c)
      (fun _ _ _ hi hs => ⟨tracked_step hi.1 hs, unwound_step hi.1 hi.2 hs⟩)
      ⟨tracked_init _ clientId, unwound_init _ clientId⟩ h
  have hslot := hinv.2.slot
  by_cases hret : c.phase = .returned
  · simp [hret, LoopPhase.holds, (hslot.2 hret).1]
  · have hholds : c.phase.holds = true := by
      unfold LoopPhase.holds
      split
      · exact absurd ‹_› hret
      · rfl
    simp [hholds, (hslot.1 hret).1]

/--
**The slots of the whole server.** However any number of handlers interleave, with whatever fails
in any of them:

* the slots that are free, about to be taken, taken and about to be released are all the slots, and
  no more than the limit are taken;
* a socket is in the set just as long as its handler holds a slot;
* what a handler serves is a run of the connection alone, whatever the others do, and the
  connection knows whether it has its slot;
* once every handler is done, every slot is free, or its release is under way: whoever was
  admitted has been released as often, or is about to be.
-/
theorem server_slots {clientId : Socket → Text} {maxConnections : Nat}
    {s : Server deps.sanitizer Socket} {ls : List (ServerLabel Socket)}
    (hrun : exec (step deps clientId) (create deps.sanitizer maxConnections) ls = some s) :
    (s.admission.handler.semaphore + s.admission.handler.activeConnections.card
        + s.admission.adding.length + s.admission.releasing.length = maxConnections
      ∧ s.admission.handler.activeConnections.card ≤ maxConnections)
    ∧ (∀ ws, ws ∈ s.admission.handler.activeConnections ↔ (s.handlers ws).holds = true)
    ∧ (∀ ws c, s.handlers ws = .serving c →
        (c.slotHeld = true ↔ ws ∈ s.admission.handler.activeConnections)
        ∧ ∃ labels, exec (Conn.step deps)
          (Conn.init deps.sanitizer deps.sh.server (clientId ws)) labels = some c)
    ∧ ((∀ ws, (s.handlers ws).finished = true) →
        s.admission.handler.semaphore + s.admission.releasing.length = maxConnections
        ∧ ∀ ws, s.admission.admitted.count ws
          = s.admission.released.count ws + s.admission.releasing.count ws) := by
  have h : Accounted clientId maxConnections s :=
    exec_inv (fun _ _ _ => accounted_step) (accounted_create clientId maxConnections) hrun
  have hslots := h.balanced.slots
  rw [h.limit, Admission.slots] at hslots
  refine ⟨⟨hslots, by omega⟩, h.mem_iff, fun ws c hc => ?_, fun hfinished => ?_⟩
  · obtain ⟨labels, hserved⟩ := h.served ws c hc
    refine ⟨?_, labels, hserved⟩
    rw [slotHeld_iff hserved, h.mem_iff ws, hc]
    rfl
  · -- nothing is left of any socket, neither in the set nor on its way there
    have hnone : ∀ ws, s.admission.standing ws = .none := fun ws =>
      (h.standing ws).trans (standing_of_finished (hfinished ws))
    have hadding : s.admission.adding = [] := by
      apply List.eq_nil_iff_forall_not_mem.mpr
      intro ws hmem
      have hwaiting := congrArg Standing.waiting (hnone ws)
      have hpos := List.count_pos_iff.mpr hmem
      simp only [Admission.standing, Standing.none] at hwaiting
      omega
    have hactive : s.admission.handler.activeConnections = ∅ := by
      apply Finset.eq_empty_of_forall_notMem
      intro ws hmem
      have hplaces := congrArg Standing.active (hnone ws)
      simp [Admission.standing, Standing.none, ConnectionHandler.places, hmem] at hplaces
    refine ⟨?_, fun ws => ?_⟩
    · rw [hadding, hactive] at hslots
      simpa using hslots
    · have haccount := h.balanced.account ws
      simpa [Admission.given, ConnectionHandler.places, hactive] using haccount

/-- One slot: the second socket is turned away, and the first hangs up. -/
def sampleVisits : List (ServerLabel (Fin 2)) :=
  [.arrived 0, .authenticated 0 true, .arrived 1, .acquired 0, .authenticated 1 true, .added 0,
    .timedOut 1, .accepted 0, .rejected 1, .conn 0 (.recvFailed .webSocketDisconnect)]
    ++ List.replicate 4 (.conn 0 .resume) ++ [.removed 0, .released 0]

theorem server_slots_hangup :
    ∃ s, exec (step (.sample true false) fun _ => "client".toList)
        (create plainSanitizer 1) sampleVisits = some s
      ∧ s.admission.handler.activeConnections.card ≤ 1
      ∧ s.admission.handler.semaphore + s.admission.releasing.length = 1 := by
  have hrun : (exec (step (.sample true false) fun _ => "client".toList)
      (create plainSanitizer 1) sampleVisits).map
        (fun s => decide (∀ ws, (s.handlers ws).finished = true)) = some true := by
    decide +kernel
  obtain ⟨s, hs, hfinished⟩ := Option.map_eq_some_iff.mp hrun
  obtain ⟨⟨-, hcard⟩, -, -, hdone⟩ := server_slots hs
  exact ⟨s, hs, hcard, (hdone (of_decide_eq_true hfinished)).1⟩

end Server

end YapInference
