import SeriesStream.Proofs.Composition

namespace SeriesStream

/-- What running a slot and the others behind it can come to. -/
inductive SlotRan (c : Chunk) (slot : Slot) (rest : List Slot) : Except Fault SlotsRun → Prop
  | broken {fault : Fault} (slotBroken : slot.evaluate c = .error fault) : SlotRan c slot rest (.error fault)
  | failed {e : QueryError} (slotFailed : slot.evaluate c = .ok (.error e)) :
      SlotRan c slot rest (.ok ⟨{ slot with state := .empty } :: rest, .error (e.within slot.planned.name)⟩)
  | unfiltered {ev : Evaluation} {fault : Fault} (yields : slot.evaluate c = .ok (.ok ev))
      (filter : keepInformative c.window ev.series = .error fault) : SlotRan c slot rest (.error fault)
  | brokenBehind {ev : Evaluation} {fault : Fault} (yields : slot.evaluate c = .ok (.ok ev))
      (behind : runSlots c rest = .error fault) : SlotRan c slot rest (.error fault)
  | yielded {ev : Evaluation} {run : SlotsRun} {outcome : Except QueryError (List WindowSeries × Nat)}
      (yields : slot.evaluate c = .ok (.ok ev)) (behind : runSlots c rest = .ok run) :
      SlotRan c slot rest (.ok ⟨{ slot with state := ev.state } :: run.slots, outcome⟩)

theorem runSlots_cases (c : Chunk) (slot : Slot) (rest : List Slot) :
    SlotRan c slot rest (runSlots c (slot :: rest)) := by
  simp only [runSlots, bind, Except.bind]
  cases hslot : slot.planned.expression.evaluate c.window c.data slot.state with
  | error fault => exact .broken hslot
  | ok result =>
    cases result with
    | error e => exact .failed hslot
    | ok ev =>
      cases hkept : keepInformative c.window ev.series with
      | error fault => simpa only [hkept] using SlotRan.unfiltered hslot hkept
      | ok kept =>
        cases hrest : runSlots c rest with
        | error fault => simpa only [hkept] using SlotRan.brokenBehind hslot hrest
        | ok run => simpa only [hkept, pure, Except.pure] using SlotRan.yielded hslot hrest

/-- The expressions stay as planned. -/
theorem planned_of_runSlots {c : Chunk} {slots : List Slot} {run : SlotsRun}
    (h : runSlots c slots = .ok run) : run.slots.map Slot.planned = slots.map Slot.planned := by
  induction slots generalizing run with
  | nil =>
    obtain rfl : (⟨[], .ok ([], 0)⟩ : SlotsRun) = run := Except.ok.inj h
    rfl
  | cons slot rest ih =>
    have hcases := runSlots_cases c slot rest
    rw [h] at hcases
    cases hcases with
    | failed => rfl
    | yielded _ behind => rw [List.map_cons, List.map_cons, ih behind]

/-- On a window that runs forward only an expression can break off. -/
theorem broken_of_runSlots {c : Chunk} (forward : c.window.Forward) {slots : List Slot} {fault : Fault}
    (h : runSlots c slots = .error fault) : ∃ slot ∈ slots, slot.evaluate c = .error fault := by
  induction slots with
  | nil => cases h
  | cons slot rest ih =>
    have hcases := runSlots_cases c slot rest
    rw [h] at hcases
    cases hcases with
    | broken slotBroken => exact ⟨slot, List.mem_cons_self, slotBroken⟩
    | @unfiltered ev _ _ filter =>
      obtain ⟨kept, hkept⟩ := keepInformative_of_forward forward ev.series
      simp [hkept] at filter
    | brokenBehind _ behind =>
      obtain ⟨broken, hmem, hfault⟩ := ih behind
      exact ⟨broken, List.mem_cons_of_mem _ hmem, hfault⟩

/-- What can be asked of an evaluator. -/
inductive EvaluatorCall
  | evaluate (c : Chunk)
  | awaitChunk
  | finish
  | fail

/-- A batch or an error if the call is an evaluation, and nothing if it is another one. -/
abbrev CallAnswer := Option (Except QueryError WindowBatch)

def CallAnswer.batch? : CallAnswer → Option WindowBatch
  | some (.ok b) => some b
  | _ => none

namespace Evaluator

def perform (e : Evaluator) : EvaluatorCall → Except Fault (CallAnswer × Evaluator)
  | .evaluate c => (e.evaluate c).map fun r => (some r.1, r.2)
  | .awaitChunk => .ok (none, e.awaitChunk)
  | .finish => .ok (none, e.finish)
  | .fail => .ok (none, e.fail)

/-- Calls one after the other, each with its answer. -/
def performAll (e : Evaluator) : List EvaluatorCall → Except Fault (List CallAnswer × Evaluator)
  | [] => .ok ([], e)
  | call :: rest => do
    let (answer, e) ← e.perform call
    let (answers, e) ← e.performAll rest
    return (answer :: answers, e)

theorem performAll_cons {e after : Evaluator} {call : EvaluatorCall} {rest : List EvaluatorCall}
    {answer : CallAnswer} (h : e.perform call = .ok (answer, after)) :
    e.performAll (call :: rest) = (after.performAll rest).map fun r => (answer :: r.1, r.2) := by
  simp only [performAll, h, bind, Except.bind]
  cases after.performAll rest <;> rfl

/-- A run of calls is its first call and the run of the others. -/
theorem performAll_cons_ok {e last : Evaluator} {call : EvaluatorCall} {rest : List EvaluatorCall}
    {answers : List CallAnswer} (h : e.performAll (call :: rest) = .ok (answers, last)) :
    ∃ answer after others, e.perform call = .ok (answer, after) ∧
      after.performAll rest = .ok (others, last) ∧ answers = answer :: others := by
  cases hcall : e.perform call with
  | error fault => simp [performAll, hcall, bind, Except.bind] at h
  | ok result =>
    obtain ⟨answer, after⟩ := result
    rw [performAll_cons hcall] at h
    cases hrest : after.performAll rest with
    | error fault => simp [hrest, Except.map] at h
    | ok result =>
      obtain ⟨others, e⟩ := result
      rw [hrest] at h
      obtain ⟨rfl, rfl⟩ := Prod.mk.inj (Except.ok.inj h)
      exact ⟨answer, after, others, rfl, hrest, rfl⟩

theorem perform_evaluate_ok {e after : Evaluator} {c : Chunk} {answer : CallAnswer}
    (h : e.perform (.evaluate c) = .ok (answer, after)) :
    ∃ result, answer = some result ∧ e.evaluate c = .ok (result, after) := by
  rw [perform] at h
  cases heval : e.evaluate c with
  | error fault => simp [heval, Except.map] at h
  | ok r =>
    rw [heval] at h
    obtain ⟨rfl, rfl⟩ := Prod.mk.inj (Except.ok.inj h)
    exact ⟨r.1, rfl, rfl⟩

/-- The books of an evaluator that has given these batches. -/
structure Books (expressions : List PlannedExpression) (batches : List WindowBatch) (e : Evaluator) :
    Prop where
  planned : e.slots.map Slot.planned = expressions
  evaluated : e.evaluated = batches.length
  next : e.nextStart = batches.getLast?.map (·.window.stop)
  adjacent : batches.IsChain fun a b => b.window.start = a.window.stop

section

variable {expressions : List PlannedExpression} {batches : List WindowBatch} {e after : Evaluator}

theorem books_ofPlan (expressions : List PlannedExpression) : Books expressions [] (ofPlan expressions) :=
  ⟨by simp [ofPlan, Function.comp_def], rfl, rfl, .nil⟩

theorem Books.unchanged (h : Books expressions batches e) {answer : CallAnswer} (empty : answer.batch? = none)
    (planned : after.slots.map Slot.planned = e.slots.map Slot.planned) (next : after.nextStart = e.nextStart)
    (evaluated : after.evaluated = e.evaluated) :
    Books expressions (batches ++ answer.batch?.toList) after := by
  rw [empty, Option.toList_none, List.append_nil]
  exact ⟨planned.trans h.planned, evaluated.trans h.evaluated, next.trans h.next, h.adjacent⟩

theorem Books.evaluate (h : Books expressions batches e) {c : Chunk}
    {result : Except QueryError WindowBatch} (heval : e.evaluate c = .ok (result, after)) :
    Books expressions (batches ++ (CallAnswer.batch? (some result)).toList) after := by
  have hcases := e.evaluate_cases c
  rw [heval] at hcases
  cases hcases with
  | terminal => exact h.unchanged rfl rfl rfl rfl
  | outOfOrder => exact h.unchanged rfl rfl rfl rfl
  | failed running next run => exact h.unchanged rfl (planned_of_runSlots run) rfl rfl
  | @batch slots results filtered running next run =>
    have hplanned : slots.map Slot.planned = e.slots.map Slot.planned := planned_of_runSlots run
    refine ⟨hplanned.trans h.planned, ?_, ?_, ?_⟩
    · simp [CallAnswer.batch?, h.evaluated]
    · simp [CallAnswer.batch?]
    · -- the evaluator only takes up a chunk that begins where its last batch ended
      refine List.isChain_append.mpr ⟨h.adjacent, .singleton _, fun last hlast b hb => ?_⟩
      obtain rfl : (⟨c.window, results⟩ : WindowBatch) = b := by simpa [CallAnswer.batch?] using hb
      have hlast' : batches.getLast? = some last := hlast
      exact (next last.window.stop (by rw [h.next, hlast', Option.map_some])).symm

theorem Books.perform (h : Books expressions batches e) {call : EvaluatorCall} {answer : CallAnswer}
    (hcall : e.perform call = .ok (answer, after)) :
    Books expressions (batches ++ answer.batch?.toList) after := by
  cases call with
  | evaluate c =>
    obtain ⟨result, rfl, heval⟩ := perform_evaluate_ok hcall
    exact h.evaluate heval
  | awaitChunk =>
    obtain ⟨rfl, rfl⟩ := Prod.mk.inj (Except.ok.inj hcall)
    unfold awaitChunk
    split <;> exact h.unchanged rfl rfl rfl rfl
  | finish =>
    obtain ⟨rfl, rfl⟩ := Prod.mk.inj (Except.ok.inj hcall)
    unfold finish
    split <;> exact h.unchanged rfl rfl rfl rfl
  | fail =>
    obtain ⟨rfl, rfl⟩ := Prod.mk.inj (Except.ok.inj hcall)
    exact h.unchanged rfl rfl rfl rfl

theorem Books.performAll (h : Books expressions batches e) {calls : List EvaluatorCall}
    {answers : List CallAnswer} (hcalls : e.performAll calls = .ok (answers, after)) :
    Books expressions (batches ++ answers.filterMap CallAnswer.batch?) after := by
  induction calls generalizing e batches answers with
  | nil =>
    obtain ⟨rfl, rfl⟩ := Prod.mk.inj (Except.ok.inj hcalls)
    simpa using h
  | cons call rest ih =>
    obtain ⟨answer, next, others, hcall, hrest, rfl⟩ := performAll_cons_ok hcalls
    have hall := ih (h.perform hcall) hrest
    rw [List.append_assoc] at hall
    cases hanswer : answer.batch? <;> simpa [hanswer] using hall

/-- Where the last batch ended the next one has to begin. -/
theorem Books.refuses (h : Books expressions batches e) (running : e.phase.isTerminal = false) {b : WindowBatch}
    (last : batches.getLast? = some b) {c : Chunk} (order : c.window.start ≠ b.window.stop) :
    e.evaluate c = .ok (.error (OrderError.outOfOrder c.window b.window.stop).toQueryError, e.fail) := by
  have hnext : e.nextStart = some b.window.stop := by rw [h.next, last, Option.map_some]
  have hcases := e.evaluate_cases c
  generalize e.evaluate c = result at hcases
  cases hcases with
  | terminal through => simp [running] at through
  | outOfOrder _ next _ =>
    obtain rfl := Option.some.inj (next.symm.trans hnext)
    rfl
  | broken _ next _ => exact absurd (next _ hnext).symm order
  | failed _ next _ => exact absurd (next _ hnext).symm order
  | batch _ next _ => exact absurd (next _ hnext).symm order

end

theorem answers_of_performAll {e after : Evaluator} {calls : List EvaluatorCall} {answers : List CallAnswer}
    (h : e.performAll calls = .ok (answers, after)) :
    answers.length = calls.length ∧ ∀ (i : Nat) (b : WindowBatch), answers[i]? = some (some (.ok b)) →
      ∃ c, calls[i]? = some (.evaluate c) ∧ b.window = c.window := by
  induction calls generalizing e answers with
  | nil =>
    obtain ⟨rfl, rfl⟩ := Prod.mk.inj (Except.ok.inj h)
    simp
  | cons call rest ih =>
    obtain ⟨answer, next, others, hcall, hrest, rfl⟩ := performAll_cons_ok h
    obtain ⟨hlength, hbatches⟩ := ih hrest
    refine ⟨by simp [hlength], fun i b hb => ?_⟩
    cases i with
    | succ i => simpa using hbatches i b (by simpa using hb)
    | zero =>
      obtain rfl : answer = some (.ok b) := by simpa using hb
      cases call with
      | evaluate c =>
        obtain ⟨result, hresult, heval⟩ := perform_evaluate_ok hcall
        obtain rfl := Option.some.inj hresult
        exact ⟨c, rfl, window_of_batch heval⟩
      | awaitChunk => cases hcall
      | finish => cases hcall
      | fail => cases hcall

/-- An evaluation that fails is the last one, and it is not counted. -/
theorem terminal_of_error {e after : Evaluator} {c : Chunk} {failure : QueryError}
    (h : e.evaluate c = .ok (.error failure, after)) :
    after.phase.isTerminal = true ∧ after.evaluated = e.evaluated := by
  have hcases := e.evaluate_cases c
  rw [h] at hcases
  cases hcases with
  | terminal through => exact ⟨through, rfl⟩
  | outOfOrder => exact ⟨rfl, rfl⟩
  | failed => exact ⟨rfl, rfl⟩

/-- What a call does to an evaluator that is through has nothing to do with its slots. -/
theorem perform_of_terminal {e : Evaluator} (terminal : e.phase.isTerminal = true) (call : EvaluatorCall) :
    ∃ answer phase, (∀ slots, perform { e with slots } call = .ok (answer, { e with slots, phase })) ∧
      phase.isTerminal = true ∧ (call = .fail → phase = .failed) ∧ (call ≠ .fail → phase = e.phase) ∧
      ∀ c, call = .evaluate c → ∃ failure, answer = some (.error failure) := by
  cases call with
  | evaluate c =>
    refine ⟨some (.error (OrderError.terminal e.phase).toQueryError), e.phase, fun slots => ?_, terminal, by simp,
      by simp, fun _ _ => ⟨_, rfl⟩⟩
    simp [perform, evaluate, terminal, Except.map]
  | awaitChunk => exact ⟨none, e.phase, by simp [perform, awaitChunk, terminal], terminal, by simp, by simp, by simp⟩
  | finish => exact ⟨none, e.phase, by simp [perform, finish, terminal], terminal, by simp, by simp, by simp⟩
  | fail => exact ⟨none, .failed, by simp [perform, fail], rfl, by simp, by simp, by simp⟩

theorem performAll_of_terminal {e : Evaluator} (terminal : e.phase.isTerminal = true) (calls : List EvaluatorCall) :
    ∃ answers phase,
      (∀ slots, performAll { e with slots } calls = .ok (answers, { e with slots, phase })) ∧
      (.fail ∈ calls → phase = .failed) ∧ (.fail ∉ calls → phase = e.phase) ∧
      ∀ (i : Nat) (c : Chunk), calls[i]? = some (.evaluate c) → ∃ failure, answers[i]? = some (some (.error failure)) := by
  induction calls generalizing e with
  | nil => exact ⟨[], e.phase, fun _ => rfl, by simp, by simp, by simp⟩
  | cons call rest ih =>
    obtain ⟨answer, between, hcall, hbetween, hfail, hkeep, herror⟩ := perform_of_terminal terminal call
    obtain ⟨answers, phase, hrest, hfailed, hkept, herrors⟩ := ih (e := { e with phase := between }) hbetween
    refine ⟨answer :: answers, phase, fun slots => ?_, fun hmem => ?_, fun hmem => ?_, fun i c hc => ?_⟩
    · rw [performAll_cons (hcall slots), show performAll { e with slots, phase := between } rest = _ from hrest slots]
      rfl
    · by_cases hlater : .fail ∈ rest
      · exact hfailed hlater
      · have hnow : call = .fail := ((List.mem_cons.mp hmem).resolve_right hlater).symm
        exact (hkept hlater).trans (hfail hnow)
    · obtain ⟨hnow, hlater⟩ := not_or.mp (List.mem_cons.not.mp hmem)
      exact (hkept hlater).trans (hkeep (Ne.symm hnow))
    · cases i with
      | zero =>
        obtain ⟨failure, rfl⟩ := herror c (by simpa using hc)
        exact ⟨failure, rfl⟩
      | succ i => simpa using herrors i c (by simpa using hc)

/-- However an evaluator is called, it has counted its batches, and each of them begins where the one before it
ends; a chunk that begins elsewhere is refused. An error is the end: whatever expressions there are, from then on
every evaluation is refused and only the phase can change, by a call that fails the evaluator. -/
theorem evaluators_go_forward_to_their_end {expressions : List PlannedExpression} {calls : List EvaluatorCall}
    {answers : List CallAnswer} {e : Evaluator}
    (h : (ofPlan expressions).performAll calls = .ok (answers, e)) :
    (answers.length = calls.length ∧ ∀ (i : Nat) (b : WindowBatch), answers[i]? = some (some (.ok b)) →
      ∃ c, calls[i]? = some (.evaluate c) ∧ b.window = c.window) ∧
    e.evaluated = (answers.filterMap CallAnswer.batch?).length ∧
    ((answers.filterMap CallAnswer.batch?).IsChain fun a b => b.window.start = a.window.stop) ∧
    (∀ b c, (answers.filterMap CallAnswer.batch?).getLast? = some b → c.window.start ≠ b.window.stop →
      e.phase.isTerminal = false →
      ∃ failure, e.evaluate c = .ok (.error failure, e.fail) ∧ failure.kind = .internal) ∧
    (∀ c failure after, e.evaluate c = .ok (.error failure, after) →
      after.phase.isTerminal = true ∧ after.evaluated = e.evaluated) ∧
    (∀ c fault, c.window.Forward → e.evaluate c = .error fault →
      ∃ p ∈ expressions, ∃ state, p.expression.evaluate c.window c.data state = .error fault) ∧
    (e.phase.isTerminal = true → ∀ more, ∃ refusals phase,
      (∀ slots, performAll { e with slots } more = .ok (refusals, { e with slots, phase })) ∧
      (.fail ∈ more → phase = .failed) ∧ (.fail ∉ more → phase = e.phase) ∧
      ∀ (i : Nat) (c : Chunk), more[i]? = some (.evaluate c) → ∃ failure, refusals[i]? = some (some (.error failure))) := by
  have books : Books expressions (answers.filterMap CallAnswer.batch?) e := by
    simpa using (books_ofPlan expressions).performAll h
  refine ⟨answers_of_performAll h, books.evaluated, books.adjacent, fun b c last order running => ?_,
    fun c failure after hfailed => terminal_of_error hfailed, fun c fault forward hfault => ?_,
    performAll_of_terminal⟩
  · exact ⟨_, books.refuses running last order, rfl⟩
  · have hcases := e.evaluate_cases c
    rw [hfault] at hcases
    cases hcases with
    | broken running next run =>
      obtain ⟨slot, hslot, hbroken⟩ := broken_of_runSlots forward run
      have hplanned : slot.planned ∈ expressions := books.planned ▸ List.mem_map_of_mem hslot
      exact ⟨slot.planned, hplanned, slot.state, hbroken⟩

theorem leap_is_refused_for_good :
    ∃ answers e, (ofPlan [⟨"total", Function.runningSum.toExpression "cpu"⟩]).performAll
        [.awaitChunk, .evaluate ⟨⟨0, 1000, 1000⟩, OrderedMap.empty⟩,
          .evaluate ⟨⟨2000, 3000, 1000⟩, OrderedMap.empty⟩] = .ok (answers, e) ∧
      e.evaluated = 1 ∧ ∀ more, ∃ refusals phase, e.performAll more = .ok (refusals, { e with phase }) ∧
        ∀ (i : Nat) (c : Chunk), more[i]? = some (.evaluate c) →
          ∃ failure, refusals[i]? = some (some (.error failure)) := by
  obtain ⟨answers, e, hrun, hterminal, hbatches⟩ : ∃ answers e,
      (ofPlan [⟨"total", Function.runningSum.toExpression "cpu"⟩]).performAll
        [.awaitChunk, .evaluate ⟨⟨0, 1000, 1000⟩, OrderedMap.empty⟩,
          .evaluate ⟨⟨2000, 3000, 1000⟩, OrderedMap.empty⟩] = .ok (answers, e) ∧
      e.phase.isTerminal = true ∧ (answers.filterMap CallAnswer.batch?).length = 1 := ⟨_, _, rfl, rfl, rfl⟩
  obtain ⟨-, hevaluated, -, -, -, -, hend⟩ := evaluators_go_forward_to_their_end hrun
  refine ⟨answers, e, hrun, hevaluated.trans hbatches, fun more => ?_⟩
  obtain ⟨refusals, phase, hmore, -, -, herrors⟩ := hend hterminal more
  exact ⟨refusals, phase, hmore e.slots, herrors⟩

end Evaluator

end SeriesStream
