import SeriesStream.Proofs.Consumer
import SeriesStream.Proofs.Partition
import SeriesStream.Proofs.Slots

namespace SeriesStream

namespace Source

/-- What the backend replies to the `n`-th request if it is for `w`. -/
def reply (s : Source) (n : Nat) (w : Window) : Reply := s.backend n ⟨s.queries, w⟩

/-- From the `n`-th request on all these windows are fetched in time and evaluated by all slots, with
these batches and these slots after them. -/
inductive Yields (s : Source) : Nat → List Slot → List Window → List WindowBatch → List Slot → Prop
  | nil (n : Nat) (slots : List Slot) : Yields s n slots [] [] slots
  | cons {n delay : Nat} {slots next final : List Slot} {w : Window} {ws : List Window} {d : RawData}
      {results : List WindowSeries} {batches : List WindowBatch}
      (replied : s.reply n w = ⟨some delay, .data d⟩) (inTime : delay ≤ s.timeout)
      (evaluated : Slot.AllYield ⟨w, d⟩ slots results next)
      (rest : Yields s (n + 1) next ws batches final) :
      Yields s n slots (w :: ws) (⟨w, results⟩ :: batches) final

/-- The `n`-th request, for `w`, fails with this error, or else some slot fails on what it brings. -/
inductive Fails (s : Source) (n : Nat) (slots : List Slot) (w : Window) : QueryError → Prop
  | refused {delay : Nat} {e : QueryError} (replied : s.reply n w = ⟨some delay, .refused e⟩)
      (inTime : delay ≤ s.timeout) : Fails s n slots w e
  | crashed {delay : Nat} {text : String} (replied : s.reply n w = ⟨some delay, .crashed text⟩)
      (inTime : delay ≤ s.timeout) : Fails s n slots w
        ⟨.internal, s!"fetch task for window {w.render} failed: task N panicked with message " ++
          Text.quoted text⟩
  | late (late : ∀ delay, (s.reply n w).delay = some delay → s.timeout < delay) : Fails s n slots w
      ⟨.timeout, s!"backend did not answer window {w.render} within {Duration.render s.timeout}"⟩
  | evaluation {delay : Nat} {d : RawData} {e : QueryError} (replied : s.reply n w = ⟨some delay, .data d⟩)
      (inTime : delay ≤ s.timeout) (fails : Slot.OneFails ⟨w, d⟩ slots e) : Fails s n slots w e

theorem fetch_of_inTime {s : Source} {n delay : Nat} {w : Window} {answer : Answer}
    (replied : s.reply n w = ⟨some delay, answer⟩) (inTime : delay ≤ s.timeout) :
    s.fetch n w = match answer with
      | .data d => .ok ⟨w, d⟩
      | .refused e => .error e
      | .crashed text => .error (FetchFailure.crashed w text).toQueryError := by
  have hreply : s.backend n ⟨s.queries, w⟩ = ⟨some delay, answer⟩ := replied
  simp only [fetch, outcome, hreply, Reply.within, Nat.not_lt.mpr inTime, ↓reduceIte]
  cases answer <;> rfl

theorem fetch_of_late {s : Source} {n : Nat} {w : Window}
    (late : ∀ delay, (s.reply n w).delay = some delay → s.timeout < delay) :
    s.fetch n w = .error (FetchFailure.late w s.timeout).toQueryError := by
  have hwithin : ((s.reply n w).within s.timeout).2 = .late := by
    unfold Reply.within
    split
    next => rfl
    next delay hdelay => simp [late delay hdelay]
  simp only [fetch, outcome]
  rw [show s.backend n ⟨s.queries, w⟩ = s.reply n w from rfl, hwithin]
  rfl

theorem inTime_or_late (s : Source) (n : Nat) (w : Window) :
    (∃ delay answer, s.reply n w = ⟨some delay, answer⟩ ∧ delay ≤ s.timeout) ∨
      ∀ delay, (s.reply n w).delay = some delay → s.timeout < delay := by
  obtain ⟨delay, answer⟩ := s.reply n w
  cases delay with
  | none => exact Or.inr (by simp)
  | some delay =>
    by_cases h : delay ≤ s.timeout
    · exact Or.inl ⟨delay, answer, rfl, h⟩
    · exact Or.inr fun d hd => by
        obtain rfl : delay = d := Option.some.inj hd
        omega

theorem yields_or_fails (s : Source) (n : Nat) {slots : List Slot} {w : Window} (proper : w.Proper)
    (steady : ∀ slot ∈ slots, slot.planned.expression.Steady) :
    (∃ delay d results next, s.reply n w = ⟨some delay, .data d⟩ ∧ delay ≤ s.timeout ∧
      Slot.AllYield ⟨w, d⟩ slots results next) ∨ ∃ e, s.Fails n slots w e := by
  rcases s.inTime_or_late n w with ⟨delay, answer, replied, inTime⟩ | late
  · cases answer with
    | data d =>
      rcases Slot.allYield_or_oneFails (c := ⟨w, d⟩) proper steady with ⟨results, next, hyield⟩ | ⟨e, he⟩
      · exact Or.inl ⟨delay, d, results, next, replied, inTime, hyield⟩
      · exact Or.inr ⟨e, .evaluation replied inTime he⟩
    | refused e => exact Or.inr ⟨e, .refused replied inTime⟩
    | crashed text => exact Or.inr ⟨_, .crashed replied inTime⟩
  · exact Or.inr ⟨_, .late late⟩

theorem Yields.windows_eq {s : Source} {n : Nat} {slots final : List Slot} {ws : List Window}
    {batches : List WindowBatch} (h : s.Yields n slots ws batches final) :
    batches.map (·.window) = ws := by
  induction h with
  | nil => rfl
  | cons _ _ _ _ ih => simp [ih]

/-- Either all windows of a chain yield, or one fails after all before it have yielded. -/
theorem yields_or_one_fails (s : Source) {ws : List Window} {n : Nat} {slots : List Slot} {a b : Int}
    (chain : Chain a ws b) (steady : ∀ slot ∈ slots, slot.planned.expression.Steady) :
    (∃ batches final, s.Yields n slots ws batches final) ∨
      ∃ before w after batches final e, ws = before ++ w :: after ∧
        s.Yields n slots before batches final ∧ s.Fails (n + before.length) final w e := by
  induction chain generalizing n slots with
  | nil => exact Or.inl ⟨[], slots, .nil n slots⟩
  | @cons w ws b proper rest ih =>
    rcases s.yields_or_fails n proper steady with ⟨delay, d, results, next, replied, inTime, hyield⟩ | ⟨e, he⟩
    · have hnext : ∀ slot ∈ next, slot.planned.expression.Steady :=
        hyield.forall_planned (P := fun p => p.expression.Steady) steady
      rcases ih (n := n + 1) hnext with ⟨batches, final, hall⟩ | ⟨before, v, after, batches, final, e, rfl, hall, he⟩
      · exact Or.inl ⟨_, final, .cons replied inTime hyield hall⟩
      · refine Or.inr ⟨w :: before, v, after, _, final, e, rfl, .cons replied inTime hyield hall, ?_⟩
        rw [List.length_cons, show n + (before.length + 1) = n + 1 + before.length by omega]
        exact he
    · exact Or.inr ⟨[], w, ws, [], slots, e, rfl, .nil n slots, he⟩

end Source

namespace Evaluator

/-- The evaluator goes on with these slots at the instant `t`. -/
structure At (e : Evaluator) (slots : List Slot) (t : Int) : Prop where
  slots_eq : e.slots = slots
  running : e.phase.isTerminal = false
  next : ∀ u, e.nextStart = some u → u = t

end Evaluator

def Plan.slots (p : Plan) : List Slot := p.expressions.map fun e => ⟨e, .empty⟩

theorem Plan.steady_slots {p : Plan} (h : ∀ e ∈ p.expressions, e.expression.Steady) :
    ∀ slot ∈ p.slots, slot.planned.expression.Steady := by
  intro slot hslot
  obtain ⟨e, he, rfl⟩ := List.mem_map.mp hslot
  exact h e he

def WindowBatch.toStep (batch : WindowBatch) : CourseStep := ⟨batch.window, .ok (.ok batch)⟩

/-- Windows that all yield are told by their batches, and the evaluator goes on behind them. -/
theorem courseOf_of_yields {s : Source} {n : Nat} {slots final : List Slot} {before after : List Window}
    {batches : List WindowBatch} {a b : Int} (h : s.Yields n slots before batches final)
    (chain : Chain a (before ++ after) b) {e : Evaluator} (he : e.At slots a) :
    ∃ c e', Chain c after b ∧ e'.At final c ∧ courseOf (s.fetches n (before ++ after)) e =
      batches.map WindowBatch.toStep ++
        courseOf (s.fetches (n + before.length) after) e' := by
  -- the evaluator expects each window at the very instant at which the one before it ends
  induction h generalizing a e with
  | nil n slots => exact ⟨a, e, chain, he, rfl⟩
  | @cons n delay slots next final w ws d results batches replied inTime evaluated rest ih =>
    cases chain with
    | cons proper chain =>
      obtain ⟨filtered, hrun⟩ := runSlots_of_allYield proper evaluated
      rw [← he.slots_eq] at hrun
      have hevaluate := Evaluator.evaluate_of_run he.running he.next hrun
      obtain ⟨c, e', hchain, he', hcourse⟩ := ih chain
        (e := ⟨next, some w.stop, .idle, e.evaluated + 1, e.filtered + filtered⟩) ⟨rfl, rfl, by simp⟩
      refine ⟨c, e', hchain, he', ?_⟩
      rw [List.length_cons, show n + (ws.length + 1) = n + 1 + ws.length by omega]
      simp only [List.cons_append, Source.fetches, Source.fetch_of_inTime replied inTime, courseOf,
        hevaluate, hcourse, List.map_cons]
      rfl

theorem courseOf_of_fails {s : Source} {n : Nat} {slots : List Slot} {w : Window} {failure : QueryError}
    (h : s.Fails n slots w failure) (proper : w.Proper) {e : Evaluator} (he : e.At slots w.start)
    (rest : List Window) :
    courseOf (s.fetches n (w :: rest)) e = [⟨w, .ok (.error failure)⟩] := by
  cases h with
  | refused replied inTime => simp only [Source.fetches, Source.fetch_of_inTime replied inTime, courseOf]
  | crashed replied inTime =>
    simp only [Source.fetches, Source.fetch_of_inTime replied inTime, courseOf]
    rfl
  | late late =>
    simp only [Source.fetches, Source.fetch_of_late late, courseOf]
    rfl
  | @evaluation delay d _ replied inTime fails =>
    obtain ⟨slots', hrun⟩ := runSlots_of_oneFails proper fails
    rw [← he.slots_eq] at hrun
    have hevaluate := Evaluator.evaluate_of_run he.running he.next hrun
    simp only [Source.fetches, Source.fetch_of_inTime replied inTime, courseOf, hevaluate]

section

variable {plan : Plan} {backend : Backend} {options : StreamOptions} {before after windows : List Window}
  {batches : List WindowBatch} {final : List Slot} {a b : Int}

theorem courseOver_of_yields (chain : Chain a windows b)
    (h : (plan.source backend options).Yields 0 plan.slots windows batches final) :
    plan.courseOver windows backend options = batches.map WindowBatch.toStep := by
  rw [← List.append_nil windows] at chain
  obtain ⟨c, e, _, _, hcourse⟩ := courseOf_of_yields h chain
    (e := Evaluator.ofPlan plan.expressions) ⟨rfl, rfl, by simp [Evaluator.ofPlan]⟩
  simpa [Plan.courseOver, Source.fetches, courseOf] using hcourse

theorem courseOver_of_fails {w : Window} {e : QueryError} (chain : Chain a (before ++ w :: after) b)
    (h : (plan.source backend options).Yields 0 plan.slots before batches final)
    (hfails : (plan.source backend options).Fails before.length final w e) :
    plan.courseOver (before ++ w :: after) backend options =
      batches.map WindowBatch.toStep ++ [⟨w, .ok (.error e)⟩] := by
  obtain ⟨c, evaluator, hchain, hat, hcourse⟩ := courseOf_of_yields h chain
    (e := Evaluator.ofPlan plan.expressions) ⟨rfl, rfl, by simp [Evaluator.ofPlan]⟩
  cases hchain with
  | cons proper =>
    rw [Plan.courseOver, hcourse, Nat.zero_add, courseOf_of_fails hfails proper hat]

end

/-- The course of a plan consists of its batches, and perhaps of the one window that fails. -/
theorem courseOver_cases {plan : Plan} {windows : List Window} {options : StreamOptions} (backend : Backend)
    (cut : partition plan.step plan.start plan.stop options.multiplier = .ok windows)
    (steady : ∀ p ∈ plan.expressions, p.expression.Steady) :
    (∃ batches final, (plan.source backend options).Yields 0 plan.slots windows batches final ∧
      plan.courseOver windows backend options = batches.map WindowBatch.toStep) ∨
    ∃ before w after batches final e, windows = before ++ w :: after ∧
      (plan.source backend options).Yields 0 plan.slots before batches final ∧
      (plan.source backend options).Fails before.length final w e ∧
      plan.courseOver windows backend options =
        batches.map WindowBatch.toStep ++ [⟨w, .ok (.error e)⟩] := by
  obtain ⟨_, _, _, _, chain, _⟩ := partition_chain cut
  rcases (plan.source backend options).yields_or_one_fails (n := 0) chain (Plan.steady_slots steady) with
    ⟨batches, final, hyield⟩ | ⟨before, w, after, batches, final, e, rfl, hyield, hfails⟩
  · exact Or.inl ⟨batches, final, hyield, courseOver_of_yields chain hyield⟩
  · rw [Nat.zero_add] at hfails
    exact Or.inr ⟨before, w, after, batches, final, e, rfl, hyield, hfails,
      courseOver_of_fails chain hyield hfails⟩

theorem batches_whole (batches : List WindowBatch) :
    ∀ s ∈ batches.map WindowBatch.toStep, ∃ result, s.result = .ok result := by
  intro s hs
  obtain ⟨batch, _, rfl⟩ := List.mem_map.mp hs
  exact ⟨_, rfl⟩

/-- Expressions that do not break off let no window of the plan do so. -/
theorem courseOver_whole {plan : Plan} {windows : List Window} {options : StreamOptions} {backend : Backend}
    (cut : partition plan.step plan.start plan.stop options.multiplier = .ok windows)
    (steady : ∀ p ∈ plan.expressions, p.expression.Steady) :
    ∀ s ∈ plan.courseOver windows backend options, ∃ result, s.result = .ok result := by
  rcases courseOver_cases backend cut steady with
    ⟨batches, _, _, hcourse⟩ | ⟨_, w, _, batches, _, e, _, _, _, hcourse⟩
  · rw [hcourse]
    exact batches_whole batches
  · intro s hs
    rw [hcourse] at hs
    rcases List.mem_append.mp hs with hs | hs
    · exact batches_whole batches s hs
    · obtain rfl := List.mem_singleton.mp hs
      exact ⟨_, rfl⟩

/-- The data events of some batches: one for each that has something to show. -/
def dataOf (batches : List WindowBatch) : List StreamEvent :=
  (batches.filter (!·.results.isEmpty)).map (.data ·.results)

theorem eventsOf_append (batches : List WindowBatch) (rest : List CourseStep) :
    eventsOf (batches.map WindowBatch.toStep ++ rest) = dataOf batches ++ eventsOf rest := by
  induction batches with
  | nil => rfl
  | cons batch batches ih =>
    cases hb : batch.results.isEmpty <;> simp [WindowBatch.toStep, eventsOf, dataOf, hb, ih]

theorem eventsOf_batches (batches : List WindowBatch) :
    eventsOf (batches.map WindowBatch.toStep) = dataOf batches ++ [.close] := by
  have happend := eventsOf_append batches []
  rwa [List.append_nil] at happend

end SeriesStream
