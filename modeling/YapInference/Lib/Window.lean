import Mathlib.Algebra.Order.Group.Defs
import Mathlib.Data.List.Induction
import Mathlib.Data.List.TakeWhile

/-!
# Sliding windows

Events at times of an ordered group, and the window of width `w` that ends at a time `t`: what is
later than `t - w` and not later than `t`. A rule lets an event in while fewer than `limit` of
those it let in before are in the event's window.

A queue is enough to run such a rule. One that has lost only expired events shows the whole
window (`Remembers`), and dropping what has expired from the front keeps it so. What the rule
lets in is `Sparse`, and then no span shorter than the window holds more than `limit` events,
wherever the span lies.
-/

namespace Window

variable {T : Type*} [LinearOrder T]

/-- Events in the order of their times, none later than `t`. -/
structure UpTo (t : T) (events : List T) : Prop where
  ordered : events.Pairwise (· ≤ ·)
  past : ∀ s ∈ events, s ≤ t

theorem upTo_nil (t : T) : UpTo t [] := ⟨List.Pairwise.nil, by simp⟩

theorem UpTo.later {t t' : T} {events : List T} (h : UpTo t events) (hle : t ≤ t') :
    UpTo t' events :=
  ⟨h.ordered, fun s hs => (h.past s hs).trans hle⟩

theorem UpTo.suffix {t : T} {events queue : List T} (h : UpTo t events) (hs : queue <:+ events) :
    UpTo t queue :=
  ⟨h.ordered.sublist hs.sublist, fun s hq => h.past s (hs.subset hq)⟩

theorem UpTo.snoc {t : T} {events : List T} (h : UpTo t events) : UpTo t (events ++ [t]) where
  ordered := by
    refine List.pairwise_append.mpr ⟨h.ordered, List.pairwise_singleton _ _, ?_⟩
    intro s hs t' ht'
    rw [List.mem_singleton.mp ht']
    exact h.past s hs
  past := by
    intro s hs
    rcases List.mem_append.mp hs with hs | hs
    · exact h.past s hs
    · exact (List.mem_singleton.mp hs).le

/-! ## Windows -/

variable [AddCommGroup T]

/-- The events in the window of width `w` that ends at `t`. -/
def within (w t : T) (events : List T) : List T :=
  events.filter fun s => decide (t - w < s ∧ s ≤ t)

/-- A queue without the expired events at its front. -/
def prune (w t : T) (queue : List T) : List T := queue.dropWhile fun s => decide (s ≤ t - w)

/-- A queue that has lost no event but those expired at `now`. -/
def Remembers (w now : T) (events queue : List T) : Prop :=
  ∃ lost, events = lost ++ queue ∧ ∀ s ∈ lost, s ≤ now - w

/-- May an event at `t` be let in after these? -/
def admits (limit : Nat) (w t : T) (events : List T) : Bool :=
  decide ((within w t events).length < limit)

/-- What the rule answers to one event after another, given what it has let in so far. -/
def answers (limit : Nat) (w : T) (events : List T) : List T → List Bool
  | [] => []
  | t :: times =>
      admits limit w t events
        :: answers limit w (if admits limit w t events then events ++ [t] else events) times

/-- Every event had fewer than `limit` before it in its window. -/
def Sparse (limit : Nat) (w : T) (events : List T) : Prop :=
  ∀ before t after, events = before ++ t :: after → (within w t before).length < limit

/-! ## A queue shows the window -/

theorem prune_suffix (w t : T) (queue : List T) : prune w t queue <:+ queue :=
  List.dropWhile_suffix _

theorem exists_expired (w t : T) (queue : List T) :
    ∃ expired, queue = expired ++ prune w t queue ∧ ∀ s ∈ expired, s ≤ t - w :=
  ⟨_, List.takeWhile_append_dropWhile.symm, fun s hs => by simpa using List.mem_takeWhile_imp hs⟩

/-- Nothing expired is left behind the first event that has not. -/
theorem lt_of_mem_prune {w t : T} {queue : List T} (h : queue.Pairwise (· ≤ ·)) :
    ∀ s ∈ prune w t queue, t - w < s := by
  cases hq : prune w t queue with
  | nil => simp
  | cons first rest =>
      have hordered : (first :: rest).Pairwise (· ≤ ·) := hq ▸ h.sublist (prune_suffix w t queue).sublist
      have hfirst : t - w < first := by
        have hkept := List.head?_dropWhile_not (fun s => decide (s ≤ t - w)) queue
        rw [← prune, hq] at hkept
        simpa using hkept
      intro s hs
      rcases List.mem_cons.mp hs with rfl | hs
      · exact hfirst
      · exact hfirst.trans_le ((List.pairwise_cons.mp hordered).1 s hs)

/-- In an ordered queue, what has not expired is the window. -/
theorem prune_eq_within {w t : T} {queue : List T} (h : UpTo t queue) :
    prune w t queue = within w t queue := by
  induction queue with
  | nil => rfl
  | cons s rest ih =>
      have hrest := ih (h.suffix (List.suffix_cons s rest))
      by_cases hs : s ≤ t - w
      · have hout : ¬ (t - w < s ∧ s ≤ t) := fun hin => hs.not_gt hin.1
        rw [prune, List.dropWhile_cons_of_pos (by simpa using hs), within,
          List.filter_cons_of_neg (by simpa using hout)]
        exact hrest
      · -- the rest is no earlier, so all of it is in the window
        have hall : ∀ x ∈ s :: rest, t - w < x ∧ x ≤ t := by
          intro x hx
          refine ⟨?_, h.past x hx⟩
          rcases List.mem_cons.mp hx with rfl | hx
          · exact not_le.mp hs
          · exact (not_le.mp hs).trans_le ((List.pairwise_cons.mp h.ordered).1 x hx)
        rw [prune, List.dropWhile_cons_of_neg (by simpa using hs), within,
          List.filter_eq_self.mpr (fun x hx => by simpa using hall x hx)]

theorem remembers_nil (w now : T) : Remembers w now [] [] := ⟨[], rfl, by simp⟩

section Ordered

variable [IsOrderedAddMonoid T]

/-- In an empty window everything has expired. -/
theorem prune_eq_nil {w t : T} {queue : List T} (hw : w ≤ 0) (h : UpTo t queue) :
    prune w t queue = [] := by
  refine List.dropWhile_eq_nil_iff.mpr fun s hs => decide_eq_true ?_
  exact (h.past s hs).trans (le_sub_self_iff t |>.mpr hw)

theorem Remembers.later {w now t : T} {events queue : List T} (h : Remembers w now events queue)
    (hle : now ≤ t) : Remembers w t events queue := by
  obtain ⟨lost, hevents, hlost⟩ := h
  exact ⟨lost, hevents, fun s hs => (hlost s hs).trans (sub_le_sub_right hle w)⟩

/-- **A queue that has lost only expired events shows the whole window.** -/
theorem Remembers.prune_eq {w now t : T} {events queue : List T}
    (h : Remembers w now events queue) (hle : now ≤ t) (hup : UpTo t events) :
    prune w t queue = within w t events := by
  obtain ⟨lost, rfl, hlost⟩ := h.later hle
  have hout : lost.filter (fun s => decide (t - w < s ∧ s ≤ t)) = [] := by
    refine List.filter_eq_nil_iff.mpr fun s hs hin => ?_
    exact (hlost s hs).not_gt (of_decide_eq_true hin).1
  rw [prune_eq_within (hup.suffix (List.suffix_append lost queue)), within, within,
    List.filter_append, hout, List.nil_append]

/-- A window that moves on without new events only gets emptier. -/
theorem length_within_later {w t t' : T} {events : List T} (h : UpTo t events) (hle : t ≤ t') :
    (within w t' events).length ≤ (within w t events).length := by
  rw [within, within, ← List.countP_eq_length_filter, ← List.countP_eq_length_filter]
  refine List.countP_mono_left fun s hs hin => ?_
  have hin := of_decide_eq_true hin
  exact decide_eq_true ⟨(sub_le_sub_right hle w).trans_lt hin.1, h.past s hs⟩

/-- Pruning loses only what has expired. -/
theorem Remembers.prune {w now t : T} {events queue : List T} (h : Remembers w now events queue)
    (hle : now ≤ t) : Remembers w t events (prune w t queue) := by
  obtain ⟨lost, rfl, hlost⟩ := h.later hle
  refine ⟨lost ++ queue.takeWhile fun s => decide (s ≤ t - w), ?_, ?_⟩
  · rw [List.append_assoc, Window.prune, List.takeWhile_append_dropWhile]
  · intro s hs
    rcases List.mem_append.mp hs with hs | hs
    · exact hlost s hs
    · simpa using List.mem_takeWhile_imp hs

end Ordered

theorem Remembers.snoc {w now : T} {events queue : List T} (h : Remembers w now events queue)
    (t : T) : Remembers w now (events ++ [t]) (queue ++ [t]) := by
  obtain ⟨lost, rfl, hlost⟩ := h
  exact ⟨lost, by simp, hlost⟩

/-! ## No span holds more than the limit -/

theorem sparse_nil (limit : Nat) (w : T) : Sparse limit w [] := by
  intro before t after h
  simp at h

theorem Sparse.snoc {limit : Nat} {w t : T} {events : List T} (h : Sparse limit w events)
    (ht : (within w t events).length < limit) : Sparse limit w (events ++ [t]) := by
  intro before s after hsplit
  rcases List.eq_nil_or_concat after with rfl | ⟨init, last, rfl⟩
  · obtain ⟨rfl, hs⟩ := List.append_inj' hsplit rfl
    injection hs with hs
    exact hs ▸ ht
  · rw [List.concat_eq_append, ← List.cons_append, ← List.append_assoc] at hsplit
    exact h before s init (List.append_inj' hsplit rfl).1

theorem Sparse.init {limit : Nat} {w t : T} {events : List T}
    (h : Sparse limit w (events ++ [t])) :
    Sparse limit w events ∧ (within w t events).length < limit :=
  ⟨fun before s after hsplit => h before s (after ++ [t]) (by simp [hsplit]), h events t [] rfl⟩

/-- **A span narrower than the window holds at most `limit` events.** -/
theorem Sparse.span {limit : Nat} {w : T} {events : List T} (h : Sparse limit w events)
    (hordered : events.Pairwise (· ≤ ·)) (span : T → Bool)
    (hspan : ∀ s t, span s = true → span t = true → t - w < s) :
    (events.filter span).length ≤ limit := by
  induction events using List.reverseRecOn with
  | nil => simp
  | append_singleton events t ih =>
      obtain ⟨hinit, hlast⟩ := h.init
      obtain ⟨hord, -, hle⟩ := List.pairwise_append.mp hordered
      by_cases ht : span t = true
      · -- the span's other events are in the window of its last one
        have hsub : events.filter span = (within w t events).filter span := by
          rw [within, List.filter_filter]
          refine List.filter_congr fun s hs => ?_
          cases hsp : span s with
          | false => simp
          | true => simp [hspan s t hsp ht, hle s hs t (by simp)]
        have hcount := List.length_filter_le span (within w t events)
        rw [List.filter_append, List.length_append, hsub]
        simp only [List.filter_cons_of_pos ht, List.filter_nil, List.length_singleton]
        omega
      · rw [List.filter_append, List.filter_cons_of_neg ht, List.filter_nil, List.append_nil]
        exact ih hinit hord

end Window
