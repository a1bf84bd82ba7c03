import YapInference.WebSocket.ConnectionHandler

/-!
# No slot is lost and none is given twice

A slot is at any moment in one of four places: free, with a call that is about to add its socket,
with a socket in the set, or with a call that is about to release it. Every step moves it from one
to the next, but for one: adding a socket that is in the set already takes a permit and no place,
and the slot is lost for good. So the slots are all there exactly as long as that has not happened.

It does not happen when sockets are connected once: each is then in at most one place on its way
in, which is counted per socket.
-/

namespace YapInference

open Lts

variable {Socket : Type} [DecidableEq Socket]

/-- Is this socket in the set, as a number? -/
def ConnectionHandler.places (handler : ConnectionHandler Socket) (websocket : Socket) : Nat :=
  if websocket ∈ handler.activeConnections then 1 else 0

namespace ConnectionHandler

variable {handler : ConnectionHandler Socket} {websocket : Socket}

theorem places_eq_zero : handler.places websocket = 0 ↔ websocket ∉ handler.activeConnections := by
  simp [places]

@[simp] theorem places_release : handler.release.places websocket = handler.places websocket := rfl

omit [DecidableEq Socket] in
/-- A permit is taken if one is free. -/
theorem acquire_spec {handler' : ConnectionHandler Socket} (h : handler.acquire = some handler') :
    0 < handler.semaphore ∧ handler' = { handler with semaphore := handler.semaphore - 1 } := by
  unfold acquire at h
  split at h
  · cases h
  · rename_i hfree
    cases h
    exact ⟨Nat.pos_of_ne_zero hfree, rfl⟩

/-- A socket that is new takes one place, and no other changes. -/
theorem add_spec (handler : ConnectionHandler Socket) (websocket : Socket) :
    let again := if websocket ∈ handler.activeConnections then [websocket] else []
    (handler.add websocket).activeConnections.card + again.length
        = handler.activeConnections.card + 1
      ∧ ∀ ws, (handler.add websocket).places ws + again.count ws
          = handler.places ws + [websocket].count ws := by
  by_cases h : websocket ∈ handler.activeConnections
  · simp only [h, if_true, add, Finset.insert_eq_of_mem, List.length_singleton, places]
    exact ⟨trivial, fun _ => trivial⟩
  · simp only [h, if_false, List.length_nil, List.count_nil, Nat.add_zero]
    refine ⟨Finset.card_insert_of_notMem h, fun ws => ?_⟩
    by_cases hws : websocket = ws
    · subst hws
      simp [places, add, h]
    · simp [places, add, hws, Ne.symm hws]

/-- A socket is removed if it is there, and then its place is to be released. -/
theorem remove_spec (handler : ConnectionHandler Socket) (websocket : Socket) :
    let freed := if (handler.remove websocket).2 then [websocket] else []
    (handler.remove websocket).1.semaphore = handler.semaphore
      ∧ (handler.remove websocket).1.maxConnections = handler.maxConnections
      ∧ handler.activeConnections.card
          = (handler.remove websocket).1.activeConnections.card + freed.length
      ∧ ∀ ws, handler.places ws = (handler.remove websocket).1.places ws + freed.count ws := by
  by_cases h : websocket ∈ handler.activeConnections
  · have hcard := Finset.card_erase_add_one h
    simp only [remove, h, if_true]
    refine ⟨trivial, trivial, hcard.symm, fun ws => ?_⟩
    by_cases hws : websocket = ws
    · subst hws
      simp [places, h]
    · simp [places, hws, Ne.symm hws]
  · simp [remove, h]

end ConnectionHandler

namespace Admission

/-! ## What a step does to the slots -/

/-- The slots there are: free, about to be taken, taken, about to be released. -/
def slots (a : Admission Socket) : Nat :=
  a.handler.semaphore + a.handler.activeConnections.card + a.adding.length + a.releasing.length

/-- What has become of the slots a socket was given. -/
def given (a : Admission Socket) (websocket : Socket) : Nat :=
  a.released.count websocket + a.releasing.count websocket + a.handler.places websocket

/-- The sockets whose slot a step loses. -/
def lost (a : Admission Socket) : AdmissionStep Socket → List Socket
  | .added websocket => if websocket ∈ a.handler.activeConnections then [websocket] else []
  | _ => []

theorem lost_eq_nil {a : Admission Socket} {l : AdmissionStep Socket} :
    a.lost l = [] ↔ a.AddsNew l := by
  cases l with
  | added ws => simp [lost, AddsNew]
  | connect ws | acquired ws | timedOut ws | lockFailed ws | disconnect ws | removed ws
  | released ws => exact iff_of_true rfl trivial

/-- A call that has left its list, counted. -/
theorem count_erase_add {l : List Socket} {ws : Socket} (h : ws ∈ l) (x : Socket) :
    (l.erase ws).count x + [ws].count x = l.count x := by
  rw [(List.perm_cons_erase h).count_eq x, Nat.add_comm, ← List.count_append]
  rfl

theorem length_erase_add {l : List Socket} {ws : Socket} (h : ws ∈ l) :
    (l.erase ws).length + 1 = l.length :=
  (List.perm_cons_erase h).length_eq.symm

variable {a a' : Admission Socket} {l : AdmissionStep Socket} {ws : Socket}

/-- What a step leaves of the slots and of what each socket was given. -/
structure Moves (a a' : Admission Socket) (l : AdmissionStep Socket) : Prop where
  limit : a'.handler.maxConnections = a.handler.maxConnections
  slots : a'.slots + (a.lost l).length = a.slots
  given : ∀ ws, a'.given ws + (a.lost l).count ws + a.admitted.count ws
    = a.given ws + a'.admitted.count ws

theorem moves_acquired (hstep : a.step (.acquired ws) = some a') : Moves a a' (.acquired ws) := by
  simp only [step] at hstep
  split at hstep
  · obtain ⟨handler, hacquire, rfl⟩ := Option.map_eq_some_iff.mp hstep
    obtain ⟨hfree, rfl⟩ := ConnectionHandler.acquire_spec hacquire
    refine ⟨rfl, ?_, fun x => rfl⟩
    simp only [slots, lost, List.length_append, List.length_singleton, List.length_nil]
    omega
  · cases hstep

theorem moves_added (hstep : a.step (.added ws) = some a') : Moves a a' (.added ws) := by
  simp only [step] at hstep
  split at hstep
  · rename_i hmem
    cases hstep
    obtain ⟨hcard, hplaces⟩ := a.handler.add_spec ws
    have hlength := length_erase_add hmem
    refine ⟨rfl, ?_, fun x => ?_⟩
    · simp only [slots, lost, ConnectionHandler.add_semaphore]
      omega
    · have hx := hplaces x
      simp only [given, lost, List.count_append]
      omega
  · cases hstep

theorem moves_lockFailed (hstep : a.step (.lockFailed ws) = some a') :
    Moves a a' (.lockFailed ws) := by
  simp only [step] at hstep
  split at hstep
  · rename_i hmem
    cases hstep
    have hlength := length_erase_add hmem
    refine ⟨rfl, ?_, fun x => rfl⟩
    simp only [slots, lost, ConnectionHandler.release_semaphore,
      ConnectionHandler.release_activeConnections, List.length_nil]
    omega
  · cases hstep

theorem moves_removed (hstep : a.step (.removed ws) = some a') : Moves a a' (.removed ws) := by
  simp only [step] at hstep
  split at hstep
  · cases hstep
    obtain ⟨hsemaphore, hmax, hcard, hplaces⟩ := a.handler.remove_spec ws
    have hreleasing : (if (a.handler.remove ws).2 = true then a.releasing ++ [ws] else a.releasing)
        = a.releasing ++ if (a.handler.remove ws).2 = true then [ws] else [] := by
      split <;> simp
    refine ⟨hmax, ?_, fun x => ?_⟩
    · simp only [slots, lost, hreleasing, List.length_append, hsemaphore, List.length_nil]
      omega
    · have hremoved := hplaces x
      simp only [given, lost, hreleasing, List.count_append, List.count_nil]
      omega
  · cases hstep

theorem moves_released (hstep : a.step (.released ws) = some a') : Moves a a' (.released ws) := by
  simp only [step] at hstep
  split at hstep
  · rename_i hmem
    cases hstep
    have hlength := length_erase_add hmem
    refine ⟨rfl, ?_, fun x => ?_⟩
    · simp only [slots, lost, ConnectionHandler.release_semaphore,
        ConnectionHandler.release_activeConnections, List.length_nil]
      omega
    · have hcount := count_erase_add hmem x
      simp only [given, lost, ConnectionHandler.places_release, List.count_append, List.count_nil]
      omega
  · cases hstep

/-- **Every step moves a slot on**, or loses the one it adds in vain. -/
theorem moves_step (hstep : a.step l = some a') : Moves a a' l := by
  cases l with
  | acquired ws => exact moves_acquired hstep
  | added ws => exact moves_added hstep
  | lockFailed ws => exact moves_lockFailed hstep
  | removed ws => exact moves_removed hstep
  | released ws => exact moves_released hstep
  | connect ws | disconnect ws =>
      -- a call that begins has nothing yet
      cases hstep
      exact ⟨rfl, rfl, fun x => rfl⟩
  | timedOut ws =>
      simp only [step] at hstep
      split at hstep
      · cases hstep
        exact ⟨rfl, rfl, fun x => rfl⟩
      · cases hstep

/-! ## Sockets that are connected once -/

/-- Every socket is in one place at most on its way in. -/
def Once (a : Admission Socket) : Prop :=
  ∀ ws, a.acquiring.count ws + a.adding.count ws + a.handler.places ws ≤ 1

/-- A socket on its way in is not in the set. -/
theorem addsNew_of_once (h : Once a) (hstep : a.step l = some a') : a.AddsNew l := by
  cases l with
  | added ws =>
      simp only [step] at hstep
      split at hstep
      · rename_i hmem
        have hpos := List.count_pos_iff.mpr hmem
        have hws := h ws
        exact ConnectionHandler.places_eq_zero.mp (by omega)
      · cases hstep
  | connect ws | acquired ws | timedOut ws | lockFailed ws | disconnect ws | removed ws
  | released ws => trivial

theorem once_connect (h : Once a) (honce : a.ConnectsOnce (.connect ws))
    (hstep : a.step (.connect ws) = some a') : Once a' := by
  cases hstep
  intro x
  have hx := h x
  by_cases hws : ws = x
  · subst hws
    have hplaces := ConnectionHandler.places_eq_zero.mpr honce.2.2
    simp only [List.count_append, List.count_eq_zero.mpr honce.1, List.count_eq_zero.mpr honce.2.1,
      hplaces, List.count_singleton_self]
    omega
  · simpa [List.count_append, List.count_singleton, hws] using hx

/-- **Preserved by every step**, as long as sockets are connected once. -/
theorem once_step (h : Once a) (honce : a.ConnectsOnce l) (hstep : a.step l = some a') :
    Once a' := by
  have hnew := addsNew_of_once h hstep
  cases l with
  | connect ws => exact once_connect h honce hstep
  | disconnect ws =>
      cases hstep
      exact h
  | acquired ws =>
      simp only [step] at hstep
      split at hstep
      · rename_i hmem
        obtain ⟨handler, hacquire, rfl⟩ := Option.map_eq_some_iff.mp hstep
        obtain ⟨-, rfl⟩ := ConnectionHandler.acquire_spec hacquire
        intro x
        -- one list loses what the other gains
        have hx := h x
        have hcount := count_erase_add hmem x
        simp only [ConnectionHandler.places, List.count_append] at hx ⊢
        omega
      · cases hstep
  | timedOut ws | lockFailed ws =>
      simp only [step] at hstep
      split at hstep
      · rename_i hmem
        cases hstep
        intro x
        have hx := h x
        have hcount := count_erase_add hmem x
        simp only [ConnectionHandler.places_release]
        omega
      · cases hstep
  | added ws =>
      simp only [step] at hstep
      split at hstep
      · rename_i hmem
        cases hstep
        intro x
        have hx := h x
        have hcount := count_erase_add hmem x
        have hplaces := (a.handler.add_spec ws).2 x
        rw [if_neg hnew, List.count_nil] at hplaces
        dsimp only
        omega
      · cases hstep
  | removed ws =>
      simp only [step] at hstep
      split at hstep
      · cases hstep
        intro x
        have hx := h x
        have hremoved := (a.handler.remove_spec ws).2.2.2 x
        dsimp only
        omega
      · cases hstep
  | released ws =>
      simp only [step] at hstep
      split at hstep
      · cases hstep
        exact h
      · cases hstep

/-! ## All slots are there -/

/-- Every slot is somewhere, and every slot given is accounted for. -/
structure Balanced (a : Admission Socket) : Prop where
  slots : a.slots = a.handler.maxConnections
  /-- Whoever was added is still there, or has been removed, and released since. -/
  account : ∀ ws, a.admitted.count ws = a.given ws

theorem balanced_create (maxConnections : Nat) :
    Balanced (create maxConnections : Admission Socket) :=
  ⟨rfl, fun ws => by simp [given, create, ConnectionHandler.create, ConnectionHandler.places]⟩

theorem once_create (maxConnections : Nat) : Once (create maxConnections : Admission Socket) :=
  fun ws => by simp [create, ConnectionHandler.create, ConnectionHandler.places]

/-- **Preserved by every step** that adds no socket twice. -/
theorem balanced_step (h : Balanced a) (hnew : a.AddsNew l) (hstep : a.step l = some a') :
    Balanced a' := by
  obtain ⟨hlimit, hslots, hgiven⟩ := moves_step hstep
  rw [lost_eq_nil.mpr hnew] at hslots hgiven
  refine ⟨?_, fun ws => ?_⟩
  · rw [hlimit, ← h.slots]
    exact hslots
  · have hws := hgiven ws
    rw [List.count_nil] at hws
    have hbefore := h.account ws
    omega

theorem slots_le_step (h : a.slots ≤ a.handler.maxConnections) (hstep : a.step l = some a') :
    a'.slots ≤ a'.handler.maxConnections := by
  obtain ⟨hlimit, hslots, -⟩ := moves_step hstep
  omega

/-- A slot that is lost stays lost. -/
theorem slots_lost_step (h : a.slots ≤ a.handler.maxConnections)
    (hlost : a.slots ≠ a.handler.maxConnections ∨ ¬ a.AddsNew l) (hstep : a.step l = some a') :
    a'.slots ≠ a'.handler.maxConnections := by
  obtain ⟨hlimit, hslots, -⟩ := moves_step hstep
  rcases hlost with hlost | hagain
  · omega
  · have hpos := List.length_pos_iff.mpr (mt lost_eq_nil.mp hagain)
    omega

/--
**Admission control.** However any number of calls of `connect` and `disconnect` interleave, no
more than the limit are taken, and the slots that are free, about to be taken, taken and about to
be released are all the slots exactly when no socket has been added that was in the set. As long
as none has,

* every time a socket was admitted, its slot is still taken, or about to be released, or has been
  released, and just one of the three;
* with no call between its permit and its end, the free slots are those `get_capacity_info` says.
-/
theorem admission_run {maxConnections : Nat} {ls : List (AdmissionStep Socket)}
    (hrun : exec step (create maxConnections) ls = some a) :
    a.handler.activeConnections.card ≤ maxConnections
      ∧ (a.handler.semaphore + a.handler.activeConnections.card + a.adding.length
            + a.releasing.length = maxConnections
          ↔ Meets step AddsNew (create maxConnections) ls)
      ∧ (Meets step AddsNew (create maxConnections) ls →
          (∀ ws, a.admitted.count ws = a.released.count ws + a.releasing.count ws
            + if ws ∈ a.handler.activeConnections then 1 else 0)
          ∧ (a.adding = [] → a.releasing = [] →
              (a.handler.semaphore : Int) = a.handler.getCapacityInfo.available)) := by
  have hcreate : Balanced (create maxConnections : Admission Socket) := balanced_create maxConnections
  have hmax : a.handler.maxConnections = maxConnections :=
    exec_inv (I := fun a => a.handler.maxConnections = maxConnections)
      (fun _ _ _ h hstep => (moves_step hstep).limit.trans h) rfl hrun
  have hle : a.slots ≤ a.handler.maxConnections :=
    exec_inv (I := fun a => a.slots ≤ a.handler.maxConnections)
      (fun _ _ _ => slots_le_step) hcreate.slots.le hrun
  have hall : a.slots = a.handler.maxConnections ↔ Meets step AddsNew (create maxConnections) ls :=
    exec_iff_meets (J := fun a => a.slots ≤ a.handler.maxConnections) (I := Balanced)
      (fun _ _ _ => slots_le_step) (fun _ => Balanced.slots)
      (fun _ _ _ _ => balanced_step) (fun _ _ _ hj _ hagain => slots_lost_step hj (Or.inr hagain))
      (fun _ _ _ hj hlost => slots_lost_step hj (Or.inl hlost)) hcreate.slots.le hcreate hrun
  rw [slots, hmax] at hall hle
  refine ⟨by omega, hall, fun hnew => ?_⟩
  have hbalanced : Balanced a := exec_inv_of_meets (fun _ _ _ => balanced_step) hcreate hnew hrun
  refine ⟨hbalanced.account, fun hadding hreleasing => ?_⟩
  have hslots := hall.mpr hnew
  simp only [hadding, hreleasing, List.length_nil] at hslots
  simp only [ConnectionHandler.getCapacityInfo]
  omega

/-- One slot: a second socket times out, and the first is disconnected twice. -/
def sampleCalls : List (AdmissionStep Nat) :=
  [.connect 1, .acquired 1, .connect 2, .added 1, .timedOut 2, .disconnect 1, .disconnect 1,
    .removed 1, .removed 1]

theorem admission_run_busy :
    ∃ a, exec step (create 1) sampleCalls = some a
      ∧ a.handler.semaphore + a.handler.activeConnections.card + a.adding.length
          + a.releasing.length = 1 := by
  have hnew : Meets step AddsNew (create 1) sampleCalls := by decide
  obtain ⟨a, hrun⟩ : ∃ a, exec step (create 1) sampleCalls = some a := ⟨_, rfl⟩
  exact ⟨a, hrun, (admission_run hrun).2.1.mpr hnew⟩

/-- **A slot that is lost.** The socket is connected while it is active; its two permits are one
place in the set, so that after it has been removed only one of them comes back. -/
theorem admission_loses :
    ¬ ∀ (maxConnections : Nat) (ls : List (AdmissionStep Nat)) (a : Admission Nat),
      exec step (create maxConnections) ls = some a →
      a.handler.semaphore + a.handler.activeConnections.card + a.adding.length
        + a.releasing.length = maxConnections := by
  intro h
  have hrun := h 2 [.connect 1, .acquired 1, .added 1, .connect 1, .acquired 1, .added 1,
    .disconnect 1, .removed 1, .released 1] _ rfl
  exact absurd hrun (by decide)

end Admission

end YapInference
