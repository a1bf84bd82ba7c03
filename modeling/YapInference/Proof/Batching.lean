import YapInference.Tool.Batch

/-!
# Batching loses nothing and mixes nothing up

The worker holds requests in the order of submission: what it has dispatched, what it has
collected and what is queued is, one after the other, everything that was put. Futures are
resolved in that order too, so they are at any moment the answers so far, each in its future, and
then futures nobody has touched.

That the next answer goes into the next future is then a matter of counting: a batch has as many
answers as requests, whatever inference has returned.
-/

namespace YapInference

open Lts

variable {Row : Type}

/-- The requests the worker has collected and not dispatched. -/
def WorkerPhase.batch : WorkerPhase Row → List RequestItem
  | .collecting batch | .inferring batch => batch
  | .waiting | .delivering _ => []

/-- The answers it has still to deliver. -/
def WorkerPhase.pending : WorkerPhase Row → List (RequestItem × Except Exc Row)
  | .delivering answers => answers
  | _ => []

namespace WorkerPhase

@[simp] theorem batch_waiting : (waiting : WorkerPhase Row).batch = [] := rfl

@[simp] theorem batch_collecting (batch : List RequestItem) :
    (collecting batch : WorkerPhase Row).batch = batch := rfl

@[simp] theorem batch_inferring (batch : List RequestItem) :
    (inferring batch : WorkerPhase Row).batch = batch := rfl

@[simp] theorem batch_delivering (answers : List (RequestItem × Except Exc Row)) :
    (delivering answers).batch = [] := rfl

@[simp] theorem pending_waiting : (waiting : WorkerPhase Row).pending = [] := rfl

@[simp] theorem pending_collecting (batch : List RequestItem) :
    (collecting batch : WorkerPhase Row).pending = [] := rfl

@[simp] theorem pending_inferring (batch : List RequestItem) :
    (inferring batch : WorkerPhase Row).pending = [] := rfl

@[simp] theorem pending_delivering (answers : List (RequestItem × Except Exc Row)) :
    (delivering answers).pending = answers := rfl

end WorkerPhase

@[simp] theorem length_batchAnswers (size : Nat) (outcome : Except Exc (List Row)) :
    (batchAnswers size outcome).length = size := by
  unfold batchAnswers
  split
  · simp
  · split
    · simp
    · rename_i h
      simpa using h

/-- Each request has its row, or all have one exception. -/
theorem answers_cases (batch : DispatchedBatch Row) :
    (∃ rows, batch.outcome = .ok rows ∧ rows.length = batch.items.length
        ∧ batch.answers = rows.map .ok)
      ∨ (∀ rows, batch.outcome = .ok rows → rows.length ≠ batch.items.length)
        ∧ ∃ exc, batch.answers = List.replicate batch.items.length (.error exc) := by
  obtain ⟨items, outcome⟩ := batch
  cases outcome with
  | error exc => exact Or.inr ⟨fun _ h => (nomatch h), exc, rfl⟩
  | ok rows =>
      by_cases hlength : rows.length = items.length
      · exact Or.inl ⟨rows, rfl, hlength, by simp [DispatchedBatch.answers, batchAnswers, hlength]⟩
      · refine Or.inr ⟨fun _ h => ?_, ?_⟩
        · cases h
          exact hlength
        · rw [DispatchedBatch.answers, batchAnswers, if_pos hlength]
          exact ⟨_, rfl⟩

/-- Everybody in a batch is answered, once. -/
theorem length_answers (batches : List (DispatchedBatch Row)) :
    (batches.flatMap (·.answers)).length = (batches.flatMap (·.items)).length := by
  simp [List.length_flatMap, DispatchedBatch.answers]

/-- What stands in the middle of a list that is numbered is numbered from there. -/
theorem map_middle_of_range {α : Type} {f : α → Nat} {before middle after : List α} {n : Nat}
    (h : (before ++ middle ++ after).map f = List.range n) :
    middle.map f = List.range' before.length middle.length := by
  refine List.ext_getElem (by simp) fun k hk _ => ?_
  have hat := congrArg (·[before.length + k]?) h
  rw [List.length_map] at hk
  simp only [List.map_append, List.append_assoc] at hat
  rw [List.getElem?_append_right (by simp), List.getElem?_append_left (by simp; omega)] at hat
  simp only [List.length_map, Nat.add_sub_cancel_left, List.getElem?_map,
    List.getElem?_eq_getElem hk, Option.map_some] at hat
  obtain ⟨hlt, hval⟩ := List.getElem?_eq_some_iff.mp hat.symm
  simpa using hval.symm

/-- The first future nobody has touched is resolved. -/
theorem modify_first_fresh (done : List (Except Exc Row)) (n : Nat) (answer : Except Exc Row) :
    (done.map BatchFuture.resolved ++ List.replicate (n + 1) BatchFuture.fresh).modify done.length
        (·.resolve answer)
      = (done ++ [answer]).map .resolved ++ List.replicate n .fresh := by
  induction done with
  | nil => rfl
  | cons first done ih => simpa using ih

namespace BatchExecutor

/-- What the phases promise about the batch they are at. -/
def PhaseOk (maxBatch : Nat) : WorkerPhase Row → Prop
  | .waiting => True
  | .collecting batch => 1 ≤ batch.length ∧ batch.length < maxBatch
  | .inferring batch => 1 ≤ batch.length ∧ batch.length ≤ maxBatch
  | .delivering answers => answers ≠ []

/-- The answers that have been delivered are in their futures, and nothing is in the others. -/
structure Delivered (executor : BatchExecutor Row) (done : List (Except Exc Row)) : Prop where
  answers : executor.dispatched.flatMap (·.answers) = done ++ executor.phase.pending.map (·.2)
  /-- The next answers are for the next futures. -/
  next : executor.phase.pending.map (·.1.future)
    = List.range' done.length executor.phase.pending.length
  futures : executor.futures = done.map .resolved
    ++ List.replicate (executor.futures.length - done.length) .fresh

/-- What every reachable executor satisfies. -/
structure Lossless (executor : BatchExecutor Row) : Prop where
  /-- Nothing is lost, doubled or reordered. -/
  order : executor.dispatched.flatMap (·.items) ++ executor.phase.batch ++ executor.queue
    = executor.submitted
  /-- A request is known by its place. -/
  places : executor.submitted.map (·.future) = List.range executor.futures.length
  sizes : ∀ batch ∈ executor.dispatched,
    1 ≤ batch.items.length ∧ batch.items.length ≤ executor.maxBatch
  room : 1 ≤ executor.maxBatch
  phase : PhaseOk executor.maxBatch executor.phase
  delivered : ∃ done, Delivered executor done

theorem lossless_create (maxBatchSize : Int) : Lossless (create maxBatchSize : BatchExecutor Row) where
  order := rfl
  places := rfl
  sizes _ h := absurd h (by simp [create])
  room := by
    simp only [create]
    omega
  phase := trivial
  delivered := ⟨[], rfl, rfl, rfl⟩

variable {executor executor' : BatchExecutor Row}

/-- What a step does, and what it needs for that. -/
inductive Steps (executor : BatchExecutor Row) : BatchStep Row → BatchExecutor Row → Prop where
  | submit (text : Py.Text) :
      Steps executor (.submit text)
        { executor with
          queue := executor.queue ++ [⟨text, executor.futures.length⟩]
          futures := executor.futures ++ [.fresh]
          submitted := executor.submitted ++ [⟨text, executor.futures.length⟩] }
  | getFirst {first : RequestItem} {rest : List RequestItem} (hphase : executor.phase = .waiting)
      (hqueue : executor.queue = first :: rest) :
      Steps executor .getFirst
        { executor with queue := rest, phase := executor.collect [first] }
  | get {batch : List RequestItem} {next : RequestItem} {rest : List RequestItem}
      (hphase : executor.phase = .collecting batch) (hqueue : executor.queue = next :: rest) :
      Steps executor .get
        { executor with queue := rest, phase := executor.collect (batch ++ [next]) }
  /-- The deadline, either way. -/
  | collected {l : BatchStep Row} {batch : List RequestItem} (hl : l = .deadlinePassed ∨ l = .empty)
      (hphase : executor.phase = .collecting batch) :
      Steps executor l { executor with phase := .inferring batch }
  | inferred {batch : List RequestItem} (outcome : Except Exc (List Row))
      (hphase : executor.phase = .inferring batch) :
      Steps executor (.inferred outcome)
        { executor with
          phase := .delivering (batch.zip (batchAnswers batch.length outcome))
          dispatched := executor.dispatched ++ [⟨batch, outcome⟩] }
  | deliver {item : RequestItem} {answer : Except Exc Row}
      {rest : List (RequestItem × Except Exc Row)}
      (hphase : executor.phase = .delivering ((item, answer) :: rest)) :
      Steps executor .deliver
        { executor with
          futures := executor.futures.modify item.future (·.resolve answer)
          phase := if rest.isEmpty then .waiting else .delivering rest }

theorem steps_of_step {l : BatchStep Row} (hstep : executor.step l = some executor') :
    Steps executor l executor' := by
  cases l with
  | submit text =>
      cases hstep
      exact .submit text
  | getFirst | get | deadlinePassed | empty | inferred outcome | deliver =>
      simp only [step] at hstep
      split at hstep
      · cases hstep
        constructor <;> simp [*]
      · cases hstep

theorem Lossless.length_submitted (h : Lossless executor) :
    executor.submitted.length = executor.futures.length := by
  simpa using congrArg List.length h.places

/-- No more is delivered than was put. -/
theorem Lossless.length_done (h : Lossless executor) {done : List (Except Exc Row)}
    (hdone : Delivered executor done) :
    done.length + executor.phase.pending.length + executor.phase.batch.length
      + executor.queue.length = executor.futures.length := by
  have hanswers := congrArg List.length hdone.answers
  have horder := congrArg List.length h.order
  simp only [List.length_append, length_answers, List.length_map] at hanswers horder
  have hsubmitted := h.length_submitted
  omega

@[simp] theorem batch_collect (executor : BatchExecutor Row) (batch : List RequestItem) :
    (executor.collect batch).batch = batch := by
  unfold collect
  split <;> rfl

@[simp] theorem pending_collect (executor : BatchExecutor Row) (batch : List RequestItem) :
    (executor.collect batch).pending = [] := by
  unfold collect
  split <;> rfl

theorem phaseOk_collect {batch : List RequestItem} (hne : 1 ≤ batch.length)
    (hroom : batch.length ≤ executor.maxBatch) :
    PhaseOk executor.maxBatch (executor.collect batch) := by
  unfold collect
  split
  · exact ⟨hne, by assumption⟩
  · exact ⟨hne, hroom⟩

/-- The worker moves on with its batch, and perhaps with the head of the queue. -/
theorem lossless_move (h : Lossless executor) {phase : WorkerPhase Row} {queue : List RequestItem}
    (hbefore : executor.phase.pending = []) (hafter : phase.pending = [])
    (hmove : phase.batch ++ queue = executor.phase.batch ++ executor.queue)
    (hphase : PhaseOk executor.maxBatch phase) :
    Lossless { executor with phase := phase, queue := queue } := by
  obtain ⟨done, hdone⟩ := h.delivered
  refine ⟨?_, h.places, h.sizes, h.room, hphase, done, ?_, ?_, hdone.futures⟩
  · have horder := h.order
    simp only [List.append_assoc] at horder ⊢
    rw [hmove, horder]
  · simpa [hbefore, hafter] using hdone.answers
  · simp [hafter]

theorem lossless_submit (h : Lossless executor) (item : RequestItem)
    (hitem : item.future = executor.futures.length) :
    Lossless { executor with
      queue := executor.queue ++ [item]
      futures := executor.futures ++ [.fresh]
      submitted := executor.submitted ++ [item] } := by
  obtain ⟨done, hdone⟩ := h.delivered
  have hlength := h.length_done hdone
  refine ⟨?_, ?_, h.sizes, h.room, h.phase, done, hdone.answers, hdone.next, ?_⟩
  · simp only [← h.order, List.append_assoc]
  · simp [h.places, hitem, List.range_succ]
  · -- one more future that nobody has touched
    have hmore : executor.futures.length + 1 - done.length
        = (executor.futures.length - done.length) + 1 := by omega
    simp only [List.length_append, List.length_singleton]
    rw [hmore, List.replicate_succ', ← List.append_assoc, ← hdone.futures]

/-- One more request is in the batch. -/
theorem lossless_get (h : Lossless executor) {next : RequestItem} {rest : List RequestItem}
    (hpending : executor.phase.pending = []) (hqueue : executor.queue = next :: rest)
    (hroom : executor.phase.batch.length < executor.maxBatch) :
    Lossless { executor with
      queue := rest, phase := executor.collect (executor.phase.batch ++ [next]) } :=
  lossless_move h hpending (by simp) (by simp [hqueue])
    (phaseOk_collect (by simp) (by simpa using Nat.succ_le_of_lt hroom))

theorem lossless_inferred (h : Lossless executor) {batch : List RequestItem}
    (hphase : executor.phase = .inferring batch) (outcome : Except Exc (List Row)) :
    Lossless { executor with
      phase := .delivering (batch.zip (batchAnswers batch.length outcome))
      dispatched := executor.dispatched ++ [⟨batch, outcome⟩] } := by
  obtain ⟨done, hdone⟩ := h.delivered
  have hsize := h.phase
  rw [hphase] at hsize
  have hanswers : executor.dispatched.flatMap (·.answers) = done := by
    simpa [hphase] using hdone.answers
  have horder := h.order
  simp only [hphase, WorkerPhase.batch_inferring] at horder
  have hlength : (batchAnswers batch.length outcome).length = batch.length :=
    length_batchAnswers _ _
  refine ⟨by simpa using horder, h.places, ?_, h.room, ?_, done, ?_, ?_, hdone.futures⟩
  · intro b hb
    rcases List.mem_append.mp hb with hb | hb
    · exact h.sizes b hb
    · rw [List.mem_singleton.mp hb]
      exact hsize
  · -- there is someone to answer
    have hpos : 0 < (batch.zip (batchAnswers batch.length outcome)).length := by
      rw [List.length_zip, hlength, Nat.min_self]
      exact hsize.1
    exact List.ne_nil_of_length_pos hpos
  · simp only [List.flatMap_append, hanswers, WorkerPhase.pending_delivering]
    rw [List.map_snd_zip hlength.le]
    simp [DispatchedBatch.answers]
  · -- the batch stands in the submission order right after what was dispatched
    have hnext := map_middle_of_range (horder ▸ h.places)
    rw [← length_answers, hanswers] at hnext
    simp only [WorkerPhase.pending_delivering]
    rw [List.length_zip, hlength, Nat.min_self, ← hnext]
    conv_rhs => rw [← List.map_fst_zip hlength.ge]
    rw [List.map_map]
    rfl

/-- The answer that is next goes into the first future nobody has touched. -/
theorem lossless_deliver (h : Lossless executor) {item : RequestItem} {answer : Except Exc Row}
    {rest : List (RequestItem × Except Exc Row)}
    (hphase : executor.phase = .delivering ((item, answer) :: rest)) :
    Lossless { executor with
      futures := executor.futures.modify item.future (·.resolve answer)
      phase := if rest.isEmpty then .waiting else .delivering rest } := by
  obtain ⟨done, hdone⟩ := h.delivered
  have hcount := h.length_done hdone
  have hnext := hdone.next
  simp only [hphase, WorkerPhase.pending_delivering, List.length_cons, List.map_cons,
    List.range'_succ, List.cons.injEq] at hcount hnext
  have huntouched : executor.futures.length - done.length
      = (executor.futures.length - (done.length + 1)) + 1 := by omega
  have hfutures : executor.futures.modify item.future (·.resolve answer)
      = (done ++ [answer]).map .resolved
        ++ List.replicate (executor.futures.length - (done.length + 1)) .fresh := by
    rw [← modify_first_fresh, ← huntouched, ← hdone.futures, hnext.1]
  -- the worker holds no batch, and what is left to deliver is the rest
  generalize hafter : (if rest.isEmpty then .waiting else .delivering rest : WorkerPhase Row)
    = after
  obtain ⟨hbatch, hpending, hok⟩ : after.batch = [] ∧ after.pending = rest
      ∧ PhaseOk executor.maxBatch after := by
    subst hafter
    cases rest with
    | nil => exact ⟨rfl, rfl, trivial⟩
    | cons next rest => exact ⟨rfl, rfl, by simp [PhaseOk]⟩
  refine ⟨?_, by simpa using h.places, h.sizes, h.room, hok, done ++ [answer], ?_, ?_, ?_⟩
  · simpa [hphase, hbatch] using h.order
  · simpa [hphase, hpending] using hdone.answers
  · simpa [hpending] using hnext.2
  · simpa using hfutures

/-- **Preserved by every step.** -/
theorem lossless_step {l : BatchStep Row} (h : Lossless executor)
    (hstep : executor.step l = some executor') : Lossless executor' := by
  have hok := h.phase
  cases steps_of_step hstep with
  | submit text => exact lossless_submit h ⟨text, executor.futures.length⟩ rfl
  | getFirst hphase hqueue =>
      have hget := lossless_get h (by simp [hphase]) hqueue (by rw [hphase]; exact h.room)
      simpa [hphase] using hget
  | get hphase hqueue =>
      rw [hphase] at hok
      have hget := lossless_get h (by simp [hphase]) hqueue (by rw [hphase]; exact hok.2)
      simpa [hphase] using hget
  | collected hl hphase =>
      rw [hphase] at hok
      exact lossless_move h (by simp [hphase]) rfl (by simp [hphase]) ⟨hok.1, hok.2.le⟩
  | inferred outcome hphase => exact lossless_inferred h hphase outcome
  | deliver hphase => exact lossless_deliver h hphase

/-- No step touches the size. -/
theorem maxBatch_step {l : BatchStep Row} (hstep : executor.step l = some executor') :
    executor'.maxBatch = executor.maxBatch := by
  cases steps_of_step hstep <;> rfl

/-- Only a submission submits. -/
theorem submitted_step {l : BatchStep Row} (hstep : executor.step l = some executor') :
    executor'.submitted.map (·.text) = executor.submitted.map (·.text) ++ l.submittedText.toList := by
  cases steps_of_step hstep with
  | collected hl hphase => rcases hl with rfl | rfl <;> simp [BatchStep.submittedText]
  | _ => simp [BatchStep.submittedText]

theorem submitted_run {ls : List (BatchStep Row)} (hrun : exec step executor ls = some executor') :
    executor'.submitted.map (·.text)
      = executor.submitted.map (·.text) ++ ls.filterMap BatchStep.submittedText := by
  induction ls generalizing executor with
  | nil =>
      obtain rfl := Option.some.inj hrun
      simp
  | cons l ls ih =>
      obtain ⟨next, hstep, hrest⟩ := exec_cons_eq_some.mp hrun
      rw [ih hrest, submitted_step hstep, List.append_assoc]
      cases htext : l.submittedText with
      | none => simp [htext]
      | some text => simp [htext]

/-! ## Who is answered with what -/

theorem Lossless.future_eq (h : Lossless executor) {i : Nat} {item : RequestItem}
    (hitem : executor.submitted[i]? = some item) : item.future = i ∧ i < executor.futures.length := by
  have hat := congrArg (·[i]?) h.places
  simp only [List.getElem?_map, hitem, Option.map_some] at hat
  obtain ⟨hlt, hval⟩ := List.getElem?_eq_some_iff.mp hat.symm
  rw [List.length_range] at hlt
  exact ⟨by simpa using hval.symm, hlt⟩

/-- A future has its answer, if that has been delivered. -/
theorem Delivered.future_at {done : List (Except Exc Row)} (h : Delivered executor done) {i : Nat}
    (hi : i < executor.futures.length) :
    executor.futures[i]? = some ((done[i]?).elim .fresh .resolved) := by
  rw [h.futures]
  rcases Nat.lt_or_ge i done.length with hlt | hge
  · rw [List.getElem?_append_left (by simpa using hlt)]
    simp [hlt]
  · rw [List.getElem?_append_right (by simpa using hge), List.getElem?_replicate,
      if_pos (by rw [List.length_map]; omega)]
    simp [hge]

/-- A request and its answer stand at one place, in the batch and in all that was dispatched. -/
theorem answer_of_item {batches : List (DispatchedBatch Row)} {batch : DispatchedBatch Row}
    (hbatch : batch ∈ batches) {k : Nat} {item : RequestItem} (hitem : batch.items[k]? = some item) :
    ∃ (i : Nat) (answer : Except Exc Row), (batches.flatMap (·.items))[i]? = some item
      ∧ batch.answers[k]? = some answer
      ∧ (batches.flatMap (·.answers))[i]? = some answer := by
  obtain ⟨before, after, rfl⟩ := List.append_of_mem hbatch
  obtain ⟨hk, -⟩ := List.getElem?_eq_some_iff.mp hitem
  have hanswers : k < batch.answers.length := by
    rw [DispatchedBatch.answers, length_batchAnswers]
    exact hk
  refine ⟨(before.flatMap (·.items)).length + k, batch.answers[k], ?_,
    List.getElem?_eq_getElem hanswers, ?_⟩
  · rw [List.flatMap_append, List.getElem?_append_right (by omega), List.flatMap_cons,
      Nat.add_sub_cancel_left, List.getElem?_append_left hk, hitem]
  · rw [← length_answers, List.flatMap_append, List.getElem?_append_right (by omega),
      List.flatMap_cons, Nat.add_sub_cancel_left, List.getElem?_append_left hanswers,
      List.getElem?_eq_getElem hanswers]

/-- **The future of a dispatched request** holds the answer from its place in its batch, or nothing
while the worker is still delivering. -/
theorem Lossless.dispatched_future (h : Lossless executor) {batch : DispatchedBatch Row}
    (hbatch : batch ∈ executor.dispatched) {k : Nat} {item : RequestItem}
    (hitem : batch.items[k]? = some item) :
    ∃ answer, batch.answers[k]? = some answer
      ∧ (executor.futures[item.future]? = some (.resolved answer)
        ∨ executor.futures[item.future]? = some .fresh
          ∧ ∃ answers, executor.phase = .delivering answers) := by
  obtain ⟨done, hdone⟩ := h.delivered
  obtain ⟨i, answer, hi, hanswer, hall⟩ := answer_of_item hbatch hitem
  have hsubmitted : executor.submitted[i]? = some item := by
    rw [← h.order, List.append_assoc,
      List.getElem?_append_left (List.getElem?_eq_some_iff.mp hi).1, hi]
  obtain ⟨hfuture, hlt⟩ := h.future_eq hsubmitted
  rw [hdone.answers] at hall
  rw [hfuture, hdone.future_at hlt]
  refine ⟨answer, hanswer, ?_⟩
  rcases Nat.lt_or_ge i done.length with hdelivered | hpending
  · rw [List.getElem?_append_left hdelivered] at hall
    simp [hall]
  · refine Or.inr ⟨by simp [hpending], ?_⟩
    rw [List.getElem?_append_right hpending] at hall
    -- an answer that is pending is pending in the delivery loop
    cases hphase : executor.phase with
    | delivering answers => exact ⟨answers, rfl⟩
    | _ => simp [hphase] at hall

/-- The future of a request that was not dispatched holds nothing. -/
theorem Lossless.waiting_future (h : Lossless executor) {item : RequestItem}
    (hitem : item ∈ executor.phase.batch ++ executor.queue) :
    executor.futures[item.future]? = some .fresh := by
  obtain ⟨done, hdone⟩ := h.delivered
  obtain ⟨j, hj⟩ := List.getElem?_of_mem hitem
  have hsubmitted : executor.submitted[(executor.dispatched.flatMap (·.items)).length + j]?
      = some item := by
    rw [← h.order, List.append_assoc, List.getElem?_append_right (by omega),
      Nat.add_sub_cancel_left, hj]
  obtain ⟨hfuture, hlt⟩ := h.future_eq hsubmitted
  have hanswers := congrArg List.length hdone.answers
  rw [length_answers, List.length_append] at hanswers
  rw [hfuture, hdone.future_at hlt, List.getElem?_eq_none (by omega)]
  rfl

/-! ## The worker comes to a stop -/

/-- What the worker has still to do with a batch: to infer it, to deliver it. -/
def phaseWork : WorkerPhase Row → Nat
  | .waiting => 0
  | .collecting batch => batch.length + 2
  | .inferring batch => batch.length + 1
  | .delivering answers => answers.length

/-- A bound on the steps the worker can take before something new is put. -/
def work (executor : BatchExecutor Row) : Nat := 4 * executor.queue.length + phaseWork executor.phase

theorem phaseWork_collect (executor : BatchExecutor Row) (batch : List RequestItem) :
    phaseWork (executor.collect batch) ≤ batch.length + 2 := by
  unfold collect
  split <;> simp [phaseWork]

/-- Every step of the worker gets it nearer to the end. -/
theorem work_step {l : BatchStep Row} (hl : l.ofWorker = true)
    (hstep : executor.step l = some executor') : executor'.work < executor.work := by
  cases steps_of_step hstep with
  | submit text => cases hl
  | @getFirst first rest hphase hqueue =>
      have hcollect := phaseWork_collect executor [first]
      simp only [work, hphase, hqueue, phaseWork, List.length_cons, List.length_nil] at hcollect ⊢
      omega
  | @get batch next rest hphase hqueue =>
      have hcollect := phaseWork_collect executor (batch ++ [next])
      simp only [work, hphase, hqueue, phaseWork, List.length_cons, List.length_append,
        List.length_nil] at hcollect ⊢
      omega
  | collected _ hphase => simp [work, phaseWork, hphase]
  | inferred outcome hphase => simp [work, phaseWork, hphase]
  | @deliver item answer rest hphase => cases rest <;> simp [work, phaseWork, hphase]

theorem work_run {ls : List (BatchStep Row)} (hls : ∀ l ∈ ls, l.ofWorker = true)
    (hrun : exec step executor ls = some executor') : ls.length ≤ executor.work := by
  induction ls generalizing executor with
  | nil => exact Nat.zero_le _
  | cons l ls ih =>
      obtain ⟨next, hstep, hrest⟩ := exec_cons_eq_some.mp hrun
      have hless := work_step (hls l (by simp)) hstep
      have hle := ih (fun x hx => hls x (List.mem_cons_of_mem _ hx)) hrest
      simp only [List.length_cons]
      omega

/-- The worker stops only where it waits for a request and there is none. -/
theorem Lossless.idle_of_stuck (h : Lossless executor)
    (hstuck : ∀ l : BatchStep Row, l.ofWorker = true → executor.step l = none) :
    executor.phase = .waiting ∧ executor.queue = [] := by
  have hok := h.phase
  cases hphase : executor.phase with
  | waiting =>
      cases hqueue : executor.queue with
      | nil => exact ⟨rfl, rfl⟩
      | cons first rest => simpa [step, hphase, hqueue] using hstuck .getFirst rfl
  | collecting batch => simpa [step, hphase] using hstuck .deadlinePassed rfl
  | inferring batch => simpa [step, hphase] using hstuck (.inferred (.ok [])) rfl
  | delivering answers =>
      cases answers with
      | nil => exact absurd rfl (hphase ▸ hok)
      | cons next rest => simpa [step, hphase] using hstuck .deliver rfl

/--
**Batching loses nothing and mixes nothing up.** However submissions and the worker's steps
interleave, and whatever inference returns or raises:

* what was dispatched, batch after batch, what the worker holds and what is queued is what was
  submitted, in that order, and every request has a future of its own;
* each request of a batch is answered with its row, or all with one exception, that of inference or
  one for a wrong number of rows;
* a batch has at least one request and at most `max_batch_size`;
* the future of a dispatched request holds the answer from its place in its batch, its row or the
  batch's exception, or nothing yet while the worker is delivering;
* the future of any other request holds nothing;
* left alone, the worker comes to a stop, and there nothing is queued or undelivered.
-/
theorem batching_run {maxBatchSize : Int} {ls : List (BatchStep Row)}
    (hrun : exec step (create maxBatchSize) ls = some executor) :
    executor.dispatched.flatMap (·.items) ++ executor.phase.batch ++ executor.queue
        = executor.submitted
      ∧ executor.submitted.map (·.text) = ls.filterMap BatchStep.submittedText
      ∧ executor.submitted.map (·.future) = List.range executor.futures.length
      ∧ (∀ batch ∈ executor.dispatched,
          (∃ rows, batch.outcome = .ok rows ∧ rows.length = batch.items.length
              ∧ batch.answers = rows.map .ok)
            ∨ (∀ rows, batch.outcome = .ok rows → rows.length ≠ batch.items.length)
              ∧ ∃ exc, batch.answers = List.replicate batch.items.length (.error exc))
      ∧ (∀ batch ∈ executor.dispatched,
          1 ≤ batch.items.length ∧ batch.items.length ≤ (max 1 maxBatchSize).toNat)
      ∧ (∀ batch ∈ executor.dispatched, ∀ (k : Nat) (item : RequestItem),
          batch.items[k]? = some item → ∃ answer, batch.answers[k]? = some answer
            ∧ (executor.futures[item.future]? = some (.resolved answer)
              ∨ executor.futures[item.future]? = some .fresh
                ∧ ∃ answers, executor.phase = .delivering answers))
      ∧ (∀ item ∈ executor.phase.batch ++ executor.queue,
          executor.futures[item.future]? = some .fresh)
      ∧ (∀ more later, (∀ l ∈ more, l.ofWorker = true) → exec step executor more = some later →
          more.length ≤ executor.work)
      ∧ ((∀ l, l.ofWorker = true → executor.step l = none) →
          executor.phase = .waiting ∧ executor.queue = []) := by
  have hlossless : Lossless executor :=
    exec_inv (fun _ _ _ => lossless_step) (lossless_create maxBatchSize) hrun
  have hmax : executor.maxBatch = (max 1 maxBatchSize).toNat :=
    exec_inv (I := fun e : BatchExecutor Row => e.maxBatch = (max 1 maxBatchSize).toNat)
      (fun _ _ _ h hstep => (maxBatch_step hstep).trans h) rfl hrun
  exact ⟨hlossless.order, submitted_run hrun, hlossless.places, fun batch _ => answers_cases batch,
    hmax ▸ hlossless.sizes,
    fun _ hbatch _ _ hitem => hlossless.dispatched_future hbatch hitem,
    fun _ hitem => hlossless.waiting_future hitem, fun _ _ hls hmore => work_run hls hmore,
    hlossless.idle_of_stuck⟩

/-- Two requests in a batch of two, and one that is alone when inference raises. -/
def sampleBatches : List (BatchStep Nat) :=
  [.submit "a".toList, .getFirst, .submit "b".toList, .get, .submit "c".toList,
    .inferred (.ok [10, 20]), .deliver, .deliver, .getFirst, .empty, .inferred (.error .overflowError),
    .deliver]

theorem batching_run_two :
    ∃ executor, exec step (create 2) sampleBatches = some executor
      ∧ executor.dispatched.flatMap (·.items) ++ executor.phase.batch ++ executor.queue
          = executor.submitted
      ∧ executor.futures.map (·.result) = [.ok 10, .ok 20, .error .overflowError] := by
  obtain ⟨executor, hrun, hfutures⟩ : ∃ executor, exec step (create 2) sampleBatches = some executor
      ∧ executor.futures.map (·.result) = [.ok 10, .ok 20, .error .overflowError] := ⟨_, rfl, rfl⟩
  exact ⟨executor, hrun, (batching_run hrun).1, hfutures⟩

end BatchExecutor

end YapInference
