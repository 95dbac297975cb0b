import SeriesStream.Evaluator

namespace SeriesStream.Evaluator

/-- What the evaluation of a chunk can come to. -/
inductive Evaluated (e : Evaluator) (c : Chunk) :
    Except Fault (Except QueryError WindowBatch × Evaluator) → Prop
  | terminal (through : e.phase.isTerminal = true) :
      Evaluated e c (.ok (.error (OrderError.terminal e.phase).toQueryError, e))
  | outOfOrder {expected : Int} (running : e.phase.isTerminal = false)
      (next : e.nextStart = some expected) (order : expected ≠ c.window.start) :
      Evaluated e c (.ok (.error (OrderError.outOfOrder c.window expected).toQueryError, e.fail))
  | broken {fault : Fault} (running : e.phase.isTerminal = false)
      (next : ∀ s, e.nextStart = some s → s = c.window.start)
      (run : runSlots c e.slots = .error fault) : Evaluated e c (.error fault)
  | failed {slots : List Slot} {failure : QueryError} (running : e.phase.isTerminal = false)
      (next : ∀ s, e.nextStart = some s → s = c.window.start)
      (run : runSlots c e.slots = .ok ⟨slots, .error failure⟩) :
      Evaluated e c (.ok (.error failure, { e with slots := slots, phase := .failed }))
  | batch {slots : List Slot} {results : List WindowSeries} {filtered : Nat}
      (running : e.phase.isTerminal = false)
      (next : ∀ s, e.nextStart = some s → s = c.window.start)
      (run : runSlots c e.slots = .ok ⟨slots, .ok (results, filtered)⟩) :
      Evaluated e c (.ok (.ok ⟨c.window, results⟩,
        ⟨slots, some c.window.stop, .idle, e.evaluated + 1, e.filtered + filtered⟩))

theorem evaluate_cases (e : Evaluator) (c : Chunk) : e.Evaluated c (e.evaluate c) := by
  unfold evaluate
  by_cases hterminal : e.phase.isTerminal = true
  · simpa [hterminal] using Evaluated.terminal hterminal
  have running : e.phase.isTerminal = false := by simpa using hterminal
  simp only [running, Bool.false_eq_true, ↓reduceIte]
  split
  next expected hexpected =>
    obtain ⟨hnext, horder⟩ := Option.filter_eq_some_iff.mp hexpected
    exact .outOfOrder running hnext (by simpa using horder)
  next hnone =>
    have next : ∀ s, e.nextStart = some s → s = c.window.start := by
      intro s hs
      simpa [hs] using hnone
    cases hrun : runSlots c e.slots with
    | error fault => exact .broken running next hrun
    | ok run =>
      obtain ⟨slots, outcome⟩ := run
      cases outcome with
      | error failure => exact .failed running next hrun
      | ok out => exact .batch running next hrun

theorem evaluate_of_run {e : Evaluator} {c : Chunk} (running : e.phase.isTerminal = false)
    (next : ∀ s, e.nextStart = some s → s = c.window.start) {run : SlotsRun}
    (h : runSlots c e.slots = .ok run) :
    e.evaluate c = .ok (match run.outcome with
      | .error failure => (.error failure, { e with slots := run.slots, phase := .failed })
      | .ok (results, filtered) => (.ok ⟨c.window, results⟩,
          ⟨run.slots, some c.window.stop, .idle, e.evaluated + 1, e.filtered + filtered⟩)) := by
  have hnone : e.nextStart.filter (· ≠ c.window.start) = none := by
    cases hs : e.nextStart with
    | none => rfl
    | some s => simp [next s hs]
  simp only [evaluate, running, hnone, h, bind, Except.bind, Bool.false_eq_true, ↓reduceIte]
  cases run.outcome <;> rfl

theorem phase_of_batch {e after : Evaluator} {c : Chunk} {b : WindowBatch}
    (h : e.evaluate c = .ok (.ok b, after)) : after.phase = .idle := by
  have hcases := e.evaluate_cases c
  rw [h] at hcases
  cases hcases
  rfl

theorem window_of_batch {e after : Evaluator} {c : Chunk} {b : WindowBatch}
    (h : e.evaluate c = .ok (.ok b, after)) : b.window = c.window := by
  have hcases := e.evaluate_cases c
  rw [h] at hcases
  cases hcases
  rfl

end SeriesStream.Evaluator
