import SeriesStream.Proofs.Accounting
import SeriesStream.Proofs.Calls
import SeriesStream.Proofs.Course
import SeriesStream.Proofs.Ordered
import SeriesStream.Proofs.ReadAhead

namespace SeriesStream

namespace Evaluator

/-- What an evaluator makes of one fetch: a failed one is told as it is. -/
def answerTo (e : Evaluator) : Except QueryError Chunk → Outcome
  | .error failure => .ok (.error failure, e.fail)
  | .ok c => e.evaluate c

/-- What it makes of fetches one after the other: a batch for each, up to the first failure, which is the last
answer. -/
def consume (e : Evaluator) :
    List (Except QueryError Chunk) → Except Fault (List (Except QueryError WindowBatch) × Evaluator)
  | [] => .ok ([], e)
  | fetched :: rest => do
    match ← e.answerTo fetched with
    | (.error failure, after) => return ([.error failure], after)
    | (.ok b, after) =>
      let (answers, last) ← after.consume rest
      return (.ok b :: answers, last)

/-- Fetches that an evaluator has all answered with a batch. -/
inductive Gives (e : Evaluator) : List (Except QueryError Chunk) → List WindowBatch → Evaluator → Prop
  | nil : Gives e [] [] e
  | snoc {front : List (Except QueryError Chunk)} {batches : List WindowBatch} {between after : Evaluator}
      {fetched : Except QueryError Chunk} {b : WindowBatch} (gave : Gives e front batches between)
      (answered : between.answerTo fetched = .ok (.ok b, after)) :
      Gives e (front ++ [fetched]) (batches ++ [b]) after

section

variable {e after : Evaluator} {fetched : Except QueryError Chunk} {rest : List (Except QueryError Chunk)}

theorem consume_of_failure {failure : QueryError} (h : e.answerTo fetched = .ok (.error failure, after)) :
    e.consume (fetched :: rest) = .ok ([.error failure], after) := by
  simp [consume, h, bind, Except.bind, pure, Except.pure]

theorem consume_of_batch {b : WindowBatch} (h : e.answerTo fetched = .ok (.ok b, after)) :
    e.consume (fetched :: rest) = (after.consume rest).map fun r => (.ok b :: r.1, r.2) := by
  simp only [consume, h, bind, Except.bind]
  cases after.consume rest <;> rfl

theorem consume_of_fault {fault : Fault} (h : e.answerTo fetched = .error fault) :
    e.consume (fetched :: rest) = .error fault := by
  simp [consume, h, bind, Except.bind]

theorem answerTo_batch {b : WindowBatch} (h : e.answerTo fetched = .ok (.ok b, after)) :
    after.phase = .idle ∧ after.evaluated = e.evaluated + 1 := by
  cases fetched with
  | error failure => cases h
  | ok c =>
    have hcases := e.evaluate_cases c
    rw [show e.evaluate c = _ from h] at hcases
    cases hcases
    exact ⟨rfl, rfl⟩

theorem answerTo_failure {failure : QueryError} (running : e.phase.isTerminal = false)
    (h : e.answerTo fetched = .ok (.error failure, after)) :
    after.phase = .failed ∧ after.evaluated = e.evaluated := by
  cases fetched with
  | error f =>
    obtain ⟨-, rfl⟩ := Prod.mk.inj (Except.ok.inj h)
    exact ⟨rfl, rfl⟩
  | ok c =>
    have hcases := e.evaluate_cases c
    rw [show e.evaluate c = _ from h] at hcases
    cases hcases with
    | terminal through => simp [running] at through
    | outOfOrder => exact ⟨rfl, rfl⟩
    | failed => exact ⟨rfl, rfl⟩

theorem answerTo_awaitChunk (e : Evaluator) (fetched : Except QueryError Chunk) :
    e.awaitChunk.answerTo fetched = e.answerTo fetched := by
  cases fetched with
  | error failure => simp only [answerTo, e.fail_awaitChunk]
  | ok c => exact e.evaluate_awaitChunk c

theorem Gives.length_eq {front : List (Except QueryError Chunk)} {batches : List WindowBatch}
    (h : e.Gives front batches after) : front.length = batches.length := by
  induction h with
  | nil => rfl
  | snoc _ _ ih => simp [ih]

theorem Gives.evaluated_eq {front : List (Except QueryError Chunk)} {batches : List WindowBatch}
    (h : e.Gives front batches after) : after.evaluated = e.evaluated + batches.length := by
  induction h with
  | nil => rfl
  | snoc _ answered ih =>
    obtain ⟨-, hcount⟩ := answerTo_batch answered
    rw [hcount, ih, List.length_append]
    rfl

theorem Gives.phase_idle {front : List (Except QueryError Chunk)} {batches : List WindowBatch}
    (h : e.Gives front batches after) (idle : e.phase = .idle) : after.phase = .idle := by
  cases h with
  | nil => exact idle
  | snoc _ answered => exact (answerTo_batch answered).1

/-- What stands behind is consumed by the evaluator that gave the last batch. -/
theorem Gives.consume_append {front : List (Except QueryError Chunk)} {batches : List WindowBatch}
    (h : e.Gives front batches after) (rest : List (Except QueryError Chunk)) :
    e.consume (front ++ rest) = (after.consume rest).map fun r => (batches.map .ok ++ r.1, r.2) := by
  induction h generalizing rest with
  | nil =>
    simp only [List.nil_append, List.map_nil]
    cases e.consume rest <;> rfl
  | @snoc front batches between after fetched b _ answered ih =>
    rw [List.append_assoc, List.singleton_append, ih, consume_of_batch answered]
    cases after.consume rest <;> simp [Except.map]

theorem Gives.consume_eq {front : List (Except QueryError Chunk)} {batches : List WindowBatch}
    (h : e.Gives front batches after) : e.consume front = .ok (batches.map .ok, after) := by
  have happend := h.consume_append []
  rw [List.append_nil] at happend
  rw [happend]
  simp [consume, Except.map]

/-- Only the last answer can be a failure. -/
theorem batches_of_consume {line : List (Except QueryError Chunk)} {answers : List (Except QueryError WindowBatch)}
    (h : e.consume line = .ok (answers, after)) :
    ∀ i, i + 1 < answers.length → ∃ b, answers[i]? = some (.ok b) := by
  induction line generalizing e answers with
  | nil =>
    obtain ⟨rfl, -⟩ := Prod.mk.inj (Except.ok.inj h)
    simp
  | cons fetched rest ih =>
    cases hanswer : e.answerTo fetched with
    | error fault => simp [consume_of_fault hanswer] at h
    | ok outcome =>
      obtain ⟨answer, next⟩ := outcome
      cases answer with
      | error failure =>
        rw [consume_of_failure hanswer] at h
        obtain ⟨rfl, -⟩ := Prod.mk.inj (Except.ok.inj h)
        simp
      | ok b =>
        rw [consume_of_batch hanswer] at h
        cases hrest : next.consume rest with
        | error fault => simp [hrest, Except.map] at h
        | ok r =>
          rw [hrest] at h
          obtain ⟨rfl, rfl⟩ := Prod.mk.inj (Except.ok.inj h)
          intro i hi
          cases i with
          | zero => exact ⟨b, rfl⟩
          | succ i => exact ih hrest i (by simpa using hi)

/-- Where no expression breaks off on a window that runs forward, no evaluation does. -/
theorem exists_evaluate {c : Chunk} (forward : c.window.Forward)
    (total : ∀ slot ∈ e.slots, ∃ result, slot.evaluate c = .ok result) :
    ∃ answer after, e.evaluate c = .ok (answer, after) ∧
      after.slots.map Slot.planned = e.slots.map Slot.planned := by
  have hcases := e.evaluate_cases c
  generalize e.evaluate c = outcome at hcases
  cases hcases with
  | terminal => exact ⟨_, _, rfl, rfl⟩
  | outOfOrder => exact ⟨_, _, rfl, rfl⟩
  | failed _ _ run => exact ⟨_, _, rfl, planned_of_runSlots run⟩
  | batch _ _ run => exact ⟨_, _, rfl, planned_of_runSlots run⟩
  | broken _ _ run =>
    obtain ⟨slot, hslot, hbroken⟩ := broken_of_runSlots forward run
    obtain ⟨result, hresult⟩ := total slot hslot
    simp [hbroken] at hresult

theorem exists_consume {expressions : List PlannedExpression} {line : List (Except QueryError Chunk)}
    (planned : e.slots.map Slot.planned = expressions)
    (forward : ∀ c, .ok c ∈ line → c.window.Forward)
    (total : ∀ c, .ok c ∈ line → ∀ p ∈ expressions, ∀ state,
      ∃ result, p.expression.evaluate c.window c.data state = .ok result) :
    ∃ answers last, e.consume line = .ok (answers, last) := by
  induction line generalizing e with
  | nil => exact ⟨_, _, rfl⟩
  | cons fetched rest ih =>
    cases fetched with
    | error failure => exact ⟨_, _, consume_of_failure rfl⟩
    | ok c =>
      obtain ⟨answer, after, heval, hplanned⟩ := e.exists_evaluate (forward c (by simp)) fun slot hslot =>
        total c (by simp) slot.planned (planned ▸ List.mem_map_of_mem hslot) slot.state
      cases answer with
      | error failure => exact ⟨_, _, consume_of_failure heval⟩
      | ok b =>
        obtain ⟨answers, last, hrest⟩ := ih (hplanned.trans planned)
          (fun d hd => forward d (List.mem_cons_of_mem _ hd)) (fun d hd => total d (List.mem_cons_of_mem _ hd))
        have hfirst : e.answerTo (.ok c) = .ok (.ok b, after) := heval
        refine ⟨.ok b :: answers, last, ?_⟩
        rw [consume_of_batch hfirst, hrest]
        rfl

end

end Evaluator

theorem Source.window_of_fetches {s : Source} {n : Nat} {windows : List Window} {c : Chunk}
    (h : .ok c ∈ (s.fetches n windows).map Prod.snd) : c.window ∈ windows := by
  induction windows generalizing n with
  | nil => simp [Source.fetches] at h
  | cons w rest ih =>
    rw [Source.fetches, List.map_cons, List.mem_cons] at h
    rcases h with hfirst | hrest
    · rw [Fetcher.window_of_delivered hfirst.symm]
      exact List.mem_cons_self
    · exact List.mem_cons_of_mem _ (ih hrest)

namespace Pipeline

/-- What a call of a pipeline that goes on can come to, however long it waits. -/
inductive Answered (p : Pipeline) : Except Fault (Poll NextBatch × Pipeline) → Prop
  | pending {f : Fetcher} (waits : p.fetcher.Waits f) :
      Answered p (.ok (.pending, ⟨f, p.evaluator.awaitChunk⟩))
  | through {q : Pipeline} (line : p.fetcher.line = []) (finished : q.evaluator = p.evaluator.finish) :
      Answered p (.ok (.ready none, q))
  | batch {q : Pipeline} {w : Window} {fetched : Except QueryError Chunk} {b : WindowBatch}
      (line : p.fetcher.line = (w, fetched) :: q.fetcher.line) (sound : q.Sound)
      (answered : p.evaluator.answerTo fetched = .ok (.ok b, q.evaluator)) :
      Answered p (.ok (.ready (some (.ok b)), q))
  | failure {q : Pipeline} {w : Window} {fetched : Except QueryError Chunk} {failure : QueryError}
      {behind : List (Window × Except QueryError Chunk)} (line : p.fetcher.line = (w, fetched) :: behind)
      (answered : p.evaluator.answerTo fetched = .ok (.error failure, q.evaluator)) :
      Answered p (.ok (.ready (some (.error failure)), q))
  | broken {w : Window} {fetched : Except QueryError Chunk} {fault : Fault}
      {behind : List (Window × Except QueryError Chunk)} (line : p.fetcher.line = (w, fetched) :: behind)
      (answered : p.evaluator.answerTo fetched = .error fault) : Answered p (.error fault)

theorem answered_of_poll {p : Pipeline} (sound : p.Sound) : p.Answered p.poll := by
  have hcases := poll_cases sound
  generalize hp : p.poll = result at hcases
  cases hcases with
  | pending => exact .pending (.demand .refl)
  | through _ line _ => exact .through line (evaluator_of_through hp)
  | failure settled delivered =>
    refine .failure (Fetcher.line_of_settled settled) ?_
    rw [delivered]
    rfl
  | rejected settled delivered evaluated =>
    refine .failure (Fetcher.line_of_settled settled) ?_
    rw [delivered]
    exact evaluated
  | @batch w o c b after settled delivered evaluated =>
    have hline : p.fetcher.line = (w, .ok c) :: p.fetcher.issueNext.line := by
      rw [Fetcher.line_of_settled settled, Fetcher.line_issueNext, delivered]
    exact .batch hline (hands_of_poll sound hp).sound evaluated
  | broken settled delivered evaluated =>
    refine .broken (Fetcher.line_of_settled settled) ?_
    rw [delivered]
    exact evaluated

/-- Who finds nothing yet and asks again later is answered all the same. -/
theorem Answered.of_waits {p : Pipeline} {f : Fetcher} {result : Except Fault (Poll NextBatch × Pipeline)}
    (waits : p.fetcher.Waits f) (h : Answered ⟨f, p.evaluator.awaitChunk⟩ result) : p.Answered result := by
  have hline : f.line = p.fetcher.line := waits.line_eq
  cases h with
  | pending more =>
    rw [Evaluator.awaitChunk_awaitChunk]
    exact .pending (waits.trans more)
  | through line finished => exact .through (hline.symm.trans line) (finished.trans p.evaluator.finish_awaitChunk)
  | batch line sound answered =>
    rw [Evaluator.answerTo_awaitChunk] at answered
    exact .batch (hline.symm.trans line) sound answered
  | failure line answered =>
    rw [Evaluator.answerTo_awaitChunk] at answered
    exact .failure (hline.symm.trans line) answered
  | broken line answered =>
    rw [Evaluator.answerTo_awaitChunk] at answered
    exact .broken (hline.symm.trans line) answered

/-- Who waits for the task that is under way is told something. -/
theorem answered_of_wait {p : Pipeline} {f : Fetcher} {w : Window} (sound : p.Sound) (waits : p.fetcher.Waits f)
    (busy : f.inFlight = some (.spawned w) ∨ ∃ due o, f.inFlight = some (.running w due o)) :
    p.Answered (poll ⟨f.waitForTask, p.evaluator.awaitChunk⟩) ∧
      ∀ q, poll ⟨f.waitForTask, p.evaluator.awaitChunk⟩ ≠ .ok (.pending, q) := by
  have hsound : Sound ⟨f.waitForTask, p.evaluator.awaitChunk⟩ :=
    (Waits.await (.fetcher .refl waits.waitForTask)).sound sound
  obtain ⟨o, settled⟩ := Fetcher.settled_waitForTask busy
  exact ⟨(answered_of_poll hsound).of_waits waits.waitForTask, ready_of_settled hsound settled⟩

theorem answered_of_next {p : Pipeline} (sound : p.Sound) :
    p.Answered (p.next.map fun r => (.ready r.1, r.2)) := by
  have hfirst := answered_of_poll sound
  cases hp : p.poll with
  | error fault => simpa [next, hp, bind, Except.bind, Except.map] using hfirst
  | ok polled =>
    obtain ⟨answer, q⟩ := polled
    cases answer with
    | ready batch => simpa [next, hp, bind, Except.bind, pure, Except.pure, Except.map] using hfirst
    | pending =>
      obtain ⟨rfl, w, busy⟩ := busy_of_pending sound hp
      obtain ⟨hsecond, hready⟩ := answered_of_wait sound (.demand .refl) busy
      cases hagain : poll ⟨p.fetcher.demand.waitForTask, p.evaluator.awaitChunk⟩ with
      | error fault => simpa [next, hp, hagain, bind, Except.bind, Except.map] using hsecond
      | ok polled =>
        obtain ⟨answer, q⟩ := polled
        cases answer with
        | ready batch => simpa [next, hp, hagain, bind, Except.bind, pure, Except.pure, Except.map] using hsecond
        | pending => exact absurd hagain (hready q)

theorem answered_of_nextWithin {p : Pipeline} (sound : p.Sound) (patience : Nat) :
    p.Answered (p.nextWithin patience) := by
  have hfirst := answered_of_poll sound
  cases hp : p.poll with
  | error fault => simpa [nextWithin, hp, bind, Except.bind] using hfirst
  | ok polled =>
    obtain ⟨answer, q⟩ := polled
    cases answer with
    | ready batch => simpa [nextWithin, hp, bind, Except.bind, pure, Except.pure] using hfirst
    | pending =>
      obtain ⟨rfl, w, busy⟩ := busy_of_pending sound hp
      have waits : p.fetcher.Waits p.fetcher.demand := .demand .refl
      simp only [nextWithin, hp, bind, Except.bind, pure, Except.pure]
      by_cases hzero : patience = 0
      · simpa [hzero] using Answered.pending waits
      by_cases hdue : p.fetcher.demand.start.due?.any (· < p.fetcher.demand.start.now + patience) = true
      · obtain ⟨hsecond, -⟩ := answered_of_wait sound waits.start (Or.inr (Fetcher.running_start busy))
        simpa [hzero, hdue] using hsecond
      · simpa [hzero, hdue] using Answered.pending (waits.start.waitUntil _)

end Pipeline

/-- What the consumer of a pipeline can do. -/
inductive PipelineStep
  | next
  /-- A call that is given up after a while. -/
  | nextWithin (patience : Nat)
  | sleep (duration : Nat)

/-- What the calls so far have answered, given up ones included, and the pipeline after them. -/
structure Exchange where
  said : List (Poll NextBatch)
  pipeline : Pipeline

def Poll.ready? {α : Type} : Poll α → Option α
  | .ready a => some a
  | .pending => none

namespace Exchange

/-- The answers without those that nothing is ready yet. -/
def told (x : Exchange) : List NextBatch := x.said.filterMap Poll.ready?

def take (x : Exchange) : PipelineStep → Except Fault Exchange
  | .next => x.pipeline.next.map fun r => ⟨x.said ++ [.ready r.1], r.2⟩
  | .nextWithin patience => (x.pipeline.nextWithin patience).map fun r => ⟨x.said ++ [r.1], r.2⟩
  | .sleep duration => .ok ⟨x.said, x.pipeline.sleep duration⟩

/-- The consumer takes its steps one after the other. -/
def follow (x : Exchange) (steps : List PipelineStep) : Except Fault Exchange := steps.foldlM take x

/-- A run that was told batches only, those for the fetches at the front. A call that was given up has at most
set the phase. -/
structure Going (start : Evaluator) (fetched front : List (Except QueryError Chunk)) (batches : List WindowBatch)
    (e : Evaluator) (x : Exchange) : Prop where
  gave : start.Gives front batches e
  left : fetched = front ++ x.pipeline.fetcher.line.map Prod.snd
  sound : x.pipeline.Sound
  told : x.told = (batches.map .ok).map some
  evaluator : x.pipeline.evaluator = e ∧ x.said.getLast? ≠ some .pending ∨
    x.pipeline.evaluator = e.awaitChunk ∧ x.said.getLast? = some .pending

/-- How far a run has come in the answers to what is fetched. -/
inductive Folds (start : Evaluator) (fetched : List (Except QueryError Chunk)) (x : Exchange) : Prop
  | going {front : List (Except QueryError Chunk)} {batches : List WindowBatch} {e : Evaluator}
      (going : Going start fetched front batches e x)
  | ended {batches : List WindowBatch} {e : Evaluator} {again : Nat} (gave : start.Gives fetched batches e)
      (told : x.told = (batches.map .ok).map some ++ List.replicate (again + 1) none)
      (evaluator : x.pipeline.evaluator = e.finish) (last : x.said.getLast? = some (.ready none))
  | failed {front behind : List (Except QueryError Chunk)} {batches : List WindowBatch} {e : Evaluator}
      {failing : Except QueryError Chunk} {failure : QueryError} {again : Nat} (gave : start.Gives front batches e)
      (split : fetched = front ++ failing :: behind)
      (answered : e.answerTo failing = .ok (.error failure, x.pipeline.evaluator))
      (told : x.told = (batches.map Except.ok ++ [Except.error failure]).map some ++ List.replicate again none)
      (last : x.said.getLast? = some (.ready none) ∨ x.said.getLast? = some (.ready (some (.error failure))))

section

variable {start : Evaluator} {fetched : List (Except QueryError Chunk)} {x : Exchange}

theorem told_ready (said : List (Poll NextBatch)) (next : NextBatch) (p : Pipeline) :
    told ⟨said ++ [.ready next], p⟩ = said.filterMap Poll.ready? ++ [next] := by
  simp [told, Poll.ready?]

theorem told_pending (said : List (Poll NextBatch)) (p : Pipeline) :
    told ⟨said ++ [.pending], p⟩ = said.filterMap Poll.ready? := by
  simp [told, Poll.ready?]

/-- A pipeline whose evaluator is through tells every call the end. -/
theorem take_of_terminal (terminal : x.pipeline.evaluator.phase.isTerminal = true) (step : PipelineStep) :
    ∃ f, x.take step = .ok ⟨x.said, { x.pipeline with fetcher := f }⟩ ∨
      x.take step = .ok ⟨x.said ++ [.ready none], { x.pipeline with fetcher := f }⟩ := by
  have hpoll : x.pipeline.poll = .ok (.ready none, x.pipeline) := by simp [Pipeline.poll, terminal]
  cases step with
  | next =>
    exact ⟨x.pipeline.fetcher, Or.inr (by
      simp [take, Pipeline.next, hpoll, bind, Except.bind, pure, Except.pure, Except.map])⟩
  | nextWithin patience =>
    exact ⟨x.pipeline.fetcher, Or.inr (by
      simp [take, Pipeline.nextWithin, hpoll, bind, Except.bind, pure, Except.pure, Except.map])⟩
  | sleep duration => exact ⟨_, Or.inl rfl⟩

/-- A step is a call of the pipeline or a pause. -/
theorem take_cases (sound : x.pipeline.Sound) (step : PipelineStep) :
    (∃ result, x.pipeline.Answered result ∧ x.take step = result.map fun r => ⟨x.said ++ [r.1], r.2⟩) ∨
      ∃ f, x.pipeline.fetcher.Waits f ∧ x.take step = .ok ⟨x.said, { x.pipeline with fetcher := f }⟩ := by
  cases step with
  | next =>
    refine Or.inl ⟨_, Pipeline.answered_of_next sound, ?_⟩
    simp only [take]
    cases x.pipeline.next <;> rfl
  | nextWithin patience => exact Or.inl ⟨_, Pipeline.answered_of_nextWithin sound patience, rfl⟩
  | sleep duration => exact Or.inr ⟨_, Fetcher.Waits.refl.waitUntil _, rfl⟩

section

variable {front : List (Except QueryError Chunk)} {batches : List WindowBatch} {e : Evaluator}

/-- An evaluator whose phase a call has set answers as before. -/
theorem Going.evaluator_eq (h : Going start fetched front batches e x) :
    (∀ failing, x.pipeline.evaluator.answerTo failing = e.answerTo failing) ∧
      x.pipeline.evaluator.finish = e.finish ∧ x.pipeline.evaluator.awaitChunk = e.awaitChunk := by
  rcases h.evaluator with ⟨h, -⟩ | ⟨h, -⟩
  · simp [h]
  · rw [h]
    exact ⟨e.answerTo_awaitChunk, e.finish_awaitChunk, e.awaitChunk_awaitChunk⟩

/-- As long as all answers are batches, a call tells what the fold has next. -/
theorem Going.answered {answers : List (Except QueryError WindowBatch)} {final : Evaluator}
    (whole : start.consume fetched = .ok (answers, final)) (h : Going start fetched front batches e x)
    {result : Except Fault (Poll NextBatch × Pipeline)} (answered : x.pipeline.Answered result) :
    ∃ out, result = .ok out ∧ Folds start fetched ⟨x.said ++ [out.1], out.2⟩ := by
  obtain ⟨hanswer, hfinish, hawait⟩ := h.evaluator_eq
  have hsaid : x.said.filterMap Poll.ready? = (batches.map .ok).map some := h.told
  have hleft := h.left
  cases answered with
  | @pending f waits =>
    have hsound := (Pipeline.Waits.await (.fetcher .refl waits)).sound h.sound
    refine ⟨_, rfl, .going ⟨h.gave, ?_, hsound, ?_, Or.inr ⟨hawait, by simp⟩⟩⟩
    · rw [hleft, waits.line_eq]
    · rw [told_pending, hsaid]
  | @through q line finished =>
    have hall : fetched = front := by rw [hleft, line, List.map_nil, List.append_nil]
    have htold : Exchange.told ⟨x.said ++ [.ready none], q⟩ =
        (batches.map .ok).map some ++ List.replicate (0 + 1) none := by
      rw [told_ready, hsaid]
      rfl
    exact ⟨_, rfl, .ended (hall ▸ h.gave) htold (finished.trans hfinish) (by simp)⟩
  | @batch q w fetch b line qsound answered =>
    rw [hanswer] at answered
    refine ⟨_, rfl, .going ⟨h.gave.snoc answered, ?_, qsound, ?_, Or.inl ⟨rfl, by simp⟩⟩⟩
    · rw [hleft, line, List.map_cons, List.append_assoc, List.singleton_append]
    · rw [told_ready, hsaid]
      simp
  | @failure q w fetch failure behind line answered =>
    rw [hanswer] at answered
    rw [line, List.map_cons] at hleft
    have htold : Exchange.told ⟨x.said ++ [.ready (some (.error failure))], q⟩ =
        (batches.map Except.ok ++ [Except.error failure]).map some ++ List.replicate 0 none := by
      rw [told_ready, hsaid]
      simp
    exact ⟨_, rfl, .failed h.gave hleft answered htold (Or.inr (by simp))⟩
  | @broken w fetch fault behind line answered =>
    -- the fold would have broken off there as well
    rw [hanswer] at answered
    rw [hleft, line, List.map_cons, h.gave.consume_append, Evaluator.consume_of_fault answered] at whole
    cases whole

end

/-- A step brings a run no further than the fold goes, and breaks off nowhere else. -/
theorem Folds.take {answers : List (Except QueryError WindowBatch)} {final : Evaluator}
    (idle : start.phase = .idle) (whole : start.consume fetched = .ok (answers, final))
    (h : Folds start fetched x) (step : PipelineStep) :
    ∃ y, x.take step = .ok y ∧ Folds start fetched y := by
  cases h with
  | going going =>
    rcases take_cases going.sound step with ⟨result, hresult, htake⟩ | ⟨f, waits, htake⟩
    · obtain ⟨out, rfl, hfolds⟩ := going.answered whole hresult
      exact ⟨_, htake, hfolds⟩
    · have hsound := (Pipeline.Waits.fetcher .refl waits).sound going.sound
      have hleft := going.left
      rw [← waits.line_eq] at hleft
      exact ⟨_, htake, .going ⟨going.gave, hleft, hsound, going.told, going.evaluator⟩⟩
  | @ended batches e again gave told evaluator last =>
    have terminal : x.pipeline.evaluator.phase.isTerminal = true := by
      have hidle := gave.phase_idle idle
      simp [evaluator, Evaluator.finish, hidle, EvaluatorPhase.isTerminal]
    obtain ⟨f, htake | htake⟩ := take_of_terminal terminal step
    · exact ⟨_, htake, .ended gave told evaluator last⟩
    · have htold : Exchange.told ⟨x.said ++ [.ready none], { x.pipeline with fetcher := f }⟩ =
          (batches.map .ok).map some ++ List.replicate (again + 1 + 1) none := by
        rw [told_ready, show x.said.filterMap Poll.ready? = _ from told, List.append_assoc,
          ← List.replicate_succ']
      exact ⟨_, htake, .ended gave htold evaluator (by simp)⟩
  | @failed front behind batches e failing failure again gave split answered told last =>
    have running : e.phase.isTerminal = false := by rw [gave.phase_idle idle]; rfl
    have terminal : x.pipeline.evaluator.phase.isTerminal = true := by
      rw [(Evaluator.answerTo_failure running answered).1]
      rfl
    obtain ⟨f, htake | htake⟩ := take_of_terminal terminal step
    · exact ⟨_, htake, .failed gave split answered told last⟩
    · have htold : Exchange.told ⟨x.said ++ [.ready none], { x.pipeline with fetcher := f }⟩ =
          (batches.map Except.ok ++ [Except.error failure]).map some ++ List.replicate (again + 1) none := by
        rw [told_ready, show x.said.filterMap Poll.ready? = _ from told, List.append_assoc,
          ← List.replicate_succ']
      exact ⟨_, htake, .failed gave split answered htold (Or.inl (by simp))⟩

theorem Folds.follow {answers : List (Except QueryError WindowBatch)} {final : Evaluator}
    (idle : start.phase = .idle) (whole : start.consume fetched = .ok (answers, final))
    (h : Folds start fetched x) (steps : List PipelineStep) :
    ∃ y, x.follow steps = .ok y ∧ Folds start fetched y := by
  induction steps generalizing x with
  | nil => exact ⟨x, rfl, h⟩
  | cons step steps ih =>
    obtain ⟨y, htake, hy⟩ := h.take idle whole step
    obtain ⟨z, hfollow, hz⟩ := ih hy
    refine ⟨z, ?_, hz⟩
    rw [Exchange.follow, List.foldlM_cons, htake]
    exact hfollow

/-- What was told are the answers to as many fetches, and the end only when these are all answers. -/
theorem Folds.told_eq {answers : List (Except QueryError WindowBatch)} {final : Evaluator}
    (whole : start.consume fetched = .ok (answers, final)) (h : Folds start fetched x) :
    ∃ shown later again e, answers = shown ++ later ∧ (again = 0 ∨ later = []) ∧
      x.told = shown.map some ++ List.replicate again none ∧
      start.consume (fetched.take x.told.length) = .ok (shown, e) ∧
      x.pipeline.evaluator = { e with phase := x.pipeline.evaluator.phase } := by
  cases h with
  | @going front batches e going =>
    obtain ⟨later, rfl⟩ : ∃ later, answers = batches.map .ok ++ later := by
      rw [going.left, going.gave.consume_append] at whole
      cases hrest : e.consume (x.pipeline.fetcher.line.map Prod.snd) with
      | error fault => simp [hrest, Except.map] at whole
      | ok r =>
        rw [hrest] at whole
        exact ⟨r.1, (Prod.mk.inj (Except.ok.inj whole)).1.symm⟩
    refine ⟨batches.map .ok, later, 0, e, rfl, Or.inl rfl, ?_, ?_, ?_⟩
    · rw [going.told, List.replicate_zero, List.append_nil]
    · rw [going.left, going.told, List.length_map, List.length_map, ← going.gave.length_eq, List.take_left]
      exact going.gave.consume_eq
    · rcases going.evaluator with ⟨h, -⟩ | ⟨h, -⟩
      · rw [h]
      · rw [h]
        unfold Evaluator.awaitChunk
        split <;> rfl
  | @ended batches e again gave told evaluator last =>
    obtain ⟨rfl, -⟩ := Prod.mk.inj (Except.ok.inj (gave.consume_eq.symm.trans whole))
    refine ⟨_, [], again + 1, e, (List.append_nil _).symm, Or.inr rfl, told, ?_, ?_⟩
    · have hlength : fetched.length ≤ x.told.length := by
        simp only [told, List.length_append, List.length_map, List.length_replicate, gave.length_eq]
        omega
      rw [List.take_of_length_le hlength]
      exact gave.consume_eq
    · rw [evaluator]
      unfold Evaluator.finish
      split <;> rfl
  | @failed front behind batches e failing failure again gave split answered told last =>
    have hfold : ∀ rest, start.consume (front ++ failing :: rest) =
        .ok (batches.map .ok ++ [.error failure], x.pipeline.evaluator) := by
      intro rest
      rw [gave.consume_append, Evaluator.consume_of_failure answered]
      rfl
    obtain ⟨rfl, -⟩ := Prod.mk.inj (Except.ok.inj ((hfold behind).symm.trans (split ▸ whole)))
    refine ⟨_, [], again, x.pipeline.evaluator, (List.append_nil _).symm, Or.inr rfl, told, ?_, rfl⟩
    have hlength : x.told.length = front.length + (again + 1) := by
      simp only [told, List.length_append, List.length_map, List.length_replicate, gave.length_eq,
        List.length_singleton]
      omega
    rw [split, hlength, List.take_length_add_append, List.take_succ_cons]
    exact hfold _

/-- The batches that were told are those that were counted. -/
theorem Folds.evaluated_eq (idle : start.phase = .idle) (h : Folds start fetched x) :
    x.pipeline.evaluator.evaluated = start.evaluated + (x.told.filterMap CallAnswer.batch?).length := by
  have hgiven (batches : List WindowBatch) :
      ((batches.map Except.ok).map some).filterMap CallAnswer.batch? = batches := by
    simp [List.filterMap_map, Function.comp_def, CallAnswer.batch?]
  have hends (again : Nat) : (List.replicate again none).filterMap CallAnswer.batch? = [] := by
    simp [CallAnswer.batch?]
  cases h with
  | going going =>
    rw [going.told, hgiven, ← going.gave.evaluated_eq]
    rcases going.evaluator with ⟨h, -⟩ | ⟨h, -⟩
    · rw [h]
    · rw [h, Evaluator.evaluated_awaitChunk]
  | ended gave told evaluator last =>
    rw [told, List.filterMap_append, hgiven, hends, List.append_nil, evaluator, Evaluator.evaluated_finish]
    exact gave.evaluated_eq
  | failed gave split answered told last =>
    have running : Evaluator.phase _ = .idle := gave.phase_idle idle
    have hcount := (Evaluator.answerTo_failure (by rw [running]; rfl) answered).2
    rw [told, List.map_append, List.filterMap_append, List.filterMap_append, hgiven, hends, List.append_nil,
      hcount, gave.evaluated_eq]
    simp [CallAnswer.batch?]

theorem Folds.phase_eq (idle : start.phase = .idle) (h : Folds start fetched x) :
    (∀ b, x.said.getLast? = some (.ready (some (.ok b))) → x.pipeline.evaluator.phase = .idle) ∧
    (x.said.getLast? = some .pending → x.pipeline.evaluator.phase = .awaitingChunk) ∧
    (∀ failure, some (.error failure) ∈ x.told → x.pipeline.evaluator.phase = .failed) ∧
    (none ∈ x.told → (∀ failure, some (.error failure) ∉ x.told) → x.pipeline.evaluator.phase = .done) := by
  cases h with
  | @going front batches e going =>
    have hidle : e.phase = .idle := going.gave.phase_idle idle
    have hawait : e.awaitChunk.phase = .awaitingChunk := by
      simp [Evaluator.awaitChunk, hidle, EvaluatorPhase.isTerminal]
    rw [going.told]
    rcases going.evaluator with ⟨h, hlast⟩ | ⟨h, hlast⟩
    · exact ⟨fun _ _ => h ▸ hidle, fun hpending => absurd hpending hlast, by simp, by simp⟩
    · refine ⟨fun b hb => ?_, fun _ => h ▸ hawait, by simp, by simp⟩
      rw [hlast] at hb
      cases hb
  | @ended batches e again gave told evaluator last =>
    have hdone : x.pipeline.evaluator.phase = .done := by
      simp [evaluator, Evaluator.finish, gave.phase_idle idle, EvaluatorPhase.isTerminal]
    rw [last, told]
    exact ⟨by simp, by simp, by simp, fun _ _ => hdone⟩
  | @failed front behind batches e failing failure again gave split answered told last =>
    have running : e.phase.isTerminal = false := by rw [gave.phase_idle idle]; rfl
    have hfailed := (Evaluator.answerTo_failure running answered).1
    refine ⟨fun b hb => ?_, fun hpending => ?_, fun _ _ => hfailed, fun _ hnone => ?_⟩
    · rcases last with hlast | hlast <;> simp [hlast] at hb
    · rcases last with hlast | hlast <;> simp [hlast] at hpending
    · exact absurd (by simp [told]) (hnone failure)

theorem folds_create (backend : Backend) (queries : List BaseQuery) (windows : List Window) (timeout : Nat)
    (idle : start.phase = .idle) :
    Folds start ((Source.fetches ⟨backend, queries, timeout⟩ 0 windows).map Prod.snd)
      ⟨[], ⟨Fetcher.create backend queries windows timeout, start⟩⟩ := by
  have hsound : Pipeline.Sound ⟨Fetcher.create backend queries windows timeout, start⟩ := by
    refine ⟨fun hfinished => ?_, fun hterminal => ?_⟩
    · cases hfinished
    · simp [idle, EvaluatorPhase.isTerminal] at hterminal
  have hgoing : Going start ((Source.fetches ⟨backend, queries, timeout⟩ 0 windows).map Prod.snd) [] [] start
      ⟨[], ⟨Fetcher.create backend queries windows timeout, start⟩⟩ :=
    ⟨.nil, rfl, hsound, rfl, Or.inl ⟨rfl, by simp⟩⟩
  exact .going hgoing

end

/-- Where there is no answer the end is told. -/
theorem answer_of_told {shown later : List (Except QueryError WindowBatch)} {again i : Nat} {next : NextBatch}
    (reach : again = 0 ∨ later = [])
    (h : (shown.map some ++ List.replicate again none)[i]? = some next) : next = (shown ++ later)[i]? := by
  by_cases hi : i < shown.length
  · rw [List.getElem?_append_left (by simpa using hi), List.getElem?_map, List.getElem?_eq_getElem hi] at h
    rw [List.getElem?_append_left hi, List.getElem?_eq_getElem hi]
    exact (Option.some.inj h).symm
  · have hle : shown.length ≤ i := by omega
    rw [List.getElem?_append_right (by simpa using hle)] at h
    rcases reach with rfl | rfl
    · simp at h
    · rw [List.append_nil, List.getElem?_eq_none hle]
      exact List.eq_of_mem_replicate (List.mem_of_getElem? h)

/-- However a consumer calls, gives up and sleeps, it is told the same answers: a batch for each fetch, up to the
first failure, and then the end again and again. -/
theorem abandoned_calls_change_no_answer {expressions : List PlannedExpression} {windows : List Window}
    (backend : Backend) (queries : List BaseQuery) (timeout : Nat) (forward : ∀ w ∈ windows, w.Forward)
    (total : ∀ p ∈ expressions, ∀ w ∈ windows, ∀ d state,
      ∃ result, p.expression.evaluate w d state = .ok result) :
    let fetched := (Source.fetches ⟨backend, queries, timeout⟩ 0 windows).map Prod.snd
    ∃ answers final, (Evaluator.ofPlan expressions).consume fetched = .ok (answers, final) ∧
      (∀ i, i + 1 < answers.length → ∃ b, answers[i]? = some (.ok b)) ∧
      ∀ steps, ∃ x, follow ⟨[], ⟨Fetcher.create backend queries windows timeout, .ofPlan expressions⟩⟩ steps =
          .ok x ∧
        (∀ (i : Nat) (next : NextBatch), x.told[i]? = some next → next = answers[i]?) ∧
        (∃ e, (Evaluator.ofPlan expressions).consume (fetched.take x.told.length) =
            .ok (x.told.filterMap id, e) ∧
          x.pipeline.evaluator = { e with phase := x.pipeline.evaluator.phase }) ∧
        x.pipeline.evaluator.evaluated = (x.told.filterMap CallAnswer.batch?).length ∧
        (∀ b, x.said.getLast? = some (.ready (some (.ok b))) → x.pipeline.evaluator.phase = .idle) ∧
        (x.said.getLast? = some .pending → x.pipeline.evaluator.phase = .awaitingChunk) ∧
        (∀ failure, some (.error failure) ∈ x.told → x.pipeline.evaluator.phase = .failed) ∧
        (none ∈ x.told → (∀ failure, some (.error failure) ∉ x.told) → x.pipeline.evaluator.phase = .done) := by
  intro fetched
  have hwindow : ∀ c, .ok c ∈ fetched → c.window ∈ windows := fun c hc => Source.window_of_fetches hc
  have hplanned : (Evaluator.ofPlan expressions).slots.map Slot.planned = expressions := by
    simp [Evaluator.ofPlan, Function.comp_def]
  obtain ⟨answers, final, whole⟩ := Evaluator.exists_consume hplanned
    (fun c hc => forward c.window (hwindow c hc))
    (fun c hc p hp state => total p hp c.window (hwindow c hc) c.data state)
  refine ⟨answers, final, whole, Evaluator.batches_of_consume whole, fun steps => ?_⟩
  have hidle : (Evaluator.ofPlan expressions).phase = .idle := rfl
  obtain ⟨x, hfollow, folds⟩ := (folds_create backend queries windows timeout hidle).follow hidle whole steps
  obtain ⟨shown, later, again, e, rfl, reach, told, consumed, evaluator⟩ := folds.told_eq whole
  refine ⟨x, hfollow, fun i next hi => ?_, ⟨e, ?_, evaluator⟩, ?_, folds.phase_eq hidle⟩
  · rw [told] at hi
    exact answer_of_told reach hi
  · rw [consumed, told]
    simp
  · simpa [Evaluator.ofPlan] using folds.evaluated_eq hidle

def twoSeconds : List Window := [⟨0, 1000, 1000⟩, ⟨1000, 2000, 1000⟩]

def runningTotal : List PlannedExpression := [⟨"total", Function.runningSum.toExpression "cpu"⟩]

theorem refused_run_tells_two_answers :
    ∃ answers final, (Evaluator.ofPlan runningTotal).consume
        ((Source.fetches ⟨.flaky, ["cpu"], 100⟩ 0 twoSeconds).map Prod.snd) = .ok (answers, final) ∧
      answers.length = 2 ∧
      ∀ steps, ∃ x, follow ⟨[], ⟨Fetcher.create .flaky ["cpu"] twoSeconds 100, .ofPlan runningTotal⟩⟩ steps = .ok x ∧
        ∀ (i : Nat) (next : NextBatch), x.told[i]? = some next → next = answers[i]? := by
  have forward : ∀ w ∈ twoSeconds, w.Forward := by
    intro w hw
    rcases List.mem_pair.mp hw with rfl | rfl <;> exact ⟨by decide, by decide, by decide⟩
  have proper : ∀ w ∈ twoSeconds, w.Proper := by
    intro w hw
    rcases List.mem_pair.mp hw with rfl | rfl <;> exact ⟨by decide, by decide, by decide⟩
  have total : ∀ p ∈ runningTotal, ∀ w ∈ twoSeconds, ∀ d state,
      ∃ result, p.expression.evaluate w d state = .ok result := by
    intro p hp w hw d state
    obtain rfl := List.mem_singleton.mp hp
    obtain ⟨ev, hev⟩ := fluent_toExpression .runningSum "cpu" w d state (proper w hw)
    exact ⟨.ok ev, hev⟩
  obtain ⟨answers, final, hconsume, -, hrun⟩ :=
    abandoned_calls_change_no_answer .flaky ["cpu"] 100 forward total
  refine ⟨answers, final, hconsume, ?_, fun steps => ?_⟩
  · obtain ⟨first, failure, last, hvalue⟩ : ∃ first failure last, (Evaluator.ofPlan runningTotal).consume
        ((Source.fetches ⟨.flaky, ["cpu"], 100⟩ 0 twoSeconds).map Prod.snd) = .ok ([first, failure], last) :=
      ⟨_, _, _, rfl⟩
    obtain ⟨rfl, -⟩ := Prod.mk.inj (Except.ok.inj (hvalue.symm.trans hconsume))
    rfl
  · obtain ⟨x, hx, htold, -⟩ := hrun steps
    exact ⟨x, hx, htold⟩

end Exchange

end SeriesStream
