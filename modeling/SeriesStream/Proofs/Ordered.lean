import SeriesStream.Proofs.Carried
import SeriesStream.Proofs.Harvest
import SeriesStream.Proofs.Lasting

namespace SeriesStream

/-- On a proper window the expression yields series, whatever the data and the state it is given. -/
def Expression.Fluent (e : Expression) : Prop :=
  ∀ (w : Window) (d : RawData) (s : CarriedState), w.Proper → ∃ ev, e.evaluate w d s = .ok (.ok ev)

theorem Expression.Fluent.steady {e : Expression} (h : e.Fluent) : e.Steady := by
  intro w d s proper
  obtain ⟨ev, hev⟩ := h w d s proper
  exact ⟨.ok ev, hev⟩

theorem fluent_toExpression (f : Function) (q : BaseQuery) : (f.toExpression q).Fluent :=
  fun _ d state proper => f.evaluates_forward q (Int.le_of_lt proper.start_lt_stop) d state

theorem Slot.allYield_of_fluent {c : Chunk} {slots : List Slot} (proper : c.window.Proper)
    (fluent : ∀ slot ∈ slots, slot.planned.expression.Fluent) :
    ∃ results slots', AllYield c slots results slots' ∧ ∀ slot ∈ slots', slot.planned.expression.Fluent := by
  induction slots with
  | nil => exact ⟨[], [], .nil, fluent⟩
  | cons slot slots ih =>
    obtain ⟨hslot, hrest⟩ := List.forall_mem_cons.mp fluent
    obtain ⟨ev, hev⟩ := hslot c.window c.data slot.state proper
    obtain ⟨results, slots', hyield, hfluent⟩ := ih hrest
    exact ⟨_, _, .cons hev hyield, List.forall_mem_cons.mpr ⟨hslot, hfluent⟩⟩

/-- An evaluator that is given the window it expects yields a batch, and expects the next window behind it. -/
theorem Evaluator.At.yields {e : Evaluator} {slots : List Slot} {c : Chunk} (h : e.At slots c.window.start)
    (proper : c.window.Proper) (fluent : ∀ slot ∈ slots, slot.planned.expression.Fluent) :
    ∃ batch after slots', e.evaluate c = .ok (.ok batch, after) ∧ after.At slots' c.window.stop ∧
      ∀ slot ∈ slots', slot.planned.expression.Fluent := by
  obtain ⟨results, slots', hyield, hfluent⟩ := Slot.allYield_of_fluent proper fluent
  obtain ⟨filtered, hrun⟩ := runSlots_of_allYield proper hyield
  rw [← h.slots_eq] at hrun
  have hevaluate := evaluate_of_run h.running h.next hrun
  exact ⟨_, _, slots', hevaluate, ⟨rfl, rfl, by simp⟩, hfluent⟩

namespace Pipeline

/-- A pipeline is through, or has windows left one behind the other up to `stop`, and its evaluator expects the
first of them. -/
def Ordered (start stop : Int) (p : Pipeline) : Prop :=
  p.fetcher.finished = true ∨
    ∃ slots t, start ≤ t ∧ Chain t (p.fetcher.line.map (·.1)) stop ∧ p.evaluator.At slots t ∧
      ∀ slot ∈ slots, slot.planned.expression.Fluent

variable {start stop : Int} {p q : Pipeline}

/-- A chunk that comes in order is evaluated, and the next one comes in order again. -/
theorem Ordered.evaluates {w : Window} {o : FetchOutcome} {c : Chunk} (h : p.Ordered start stop)
    (sound : p.Sound) (settled : p.fetcher.inFlight = some (.settled w o)) (delivered : o.delivered w p.fetcher.timeout = .ok c) :
    (c.window.Proper ∧ start ≤ c.window.start ∧ c.window.stop ≤ stop) ∧
      ∃ batch after, p.evaluator.evaluate c = .ok (.ok batch, after) ∧
        Ordered start stop ⟨p.fetcher.issueNext, after⟩ := by
  have hwindow := Fetcher.window_of_delivered delivered
  rcases h with hthrough | ⟨slots, t, hstart, chain, hat, fluent⟩
  · have hfree := (sound.fetcher hthrough).2
    rw [settled] at hfree
    cases hfree
  · rw [Fetcher.line_of_settled settled, ← Fetcher.line_issueNext, List.map_cons, ← hwindow] at chain
    cases chain with
    | cons proper rest =>
      obtain ⟨batch, after, slots', hevaluate, hafter, hfluent⟩ := hat.yields proper fluent
      have hlt := proper.start_lt_stop
      refine ⟨⟨proper, hstart, rest.le⟩, batch, after, hevaluate, Or.inr ⟨slots', _, ?_, rest, hafter, hfluent⟩⟩
      omega

theorem at_awaitChunk {e : Evaluator} {slots : List Slot} {t : Int} (h : e.At slots t) :
    e.awaitChunk.At slots t := by
  have hgoing := terminal_awaitChunk e
  rw [h.running] at hgoing
  refine ⟨?_, hgoing, ?_⟩
  · rw [← h.slots_eq]
    unfold Evaluator.awaitChunk
    split <;> rfl
  · intro u hu
    refine h.next u ?_
    rw [← hu]
    unfold Evaluator.awaitChunk
    split <;> rfl

theorem lasting_ordered (start stop : Int) : Lasting (Ordered start stop) where
  waits h hw := by
    induction hw with
    | refl => exact h
    | fetcher _ hf ih =>
      rcases ih with hthrough | ⟨slots, t, hstart, chain, hat, fluent⟩
      · exact Or.inl (hf.finished hthrough)
      · exact Or.inr ⟨slots, t, hstart, by rwa [hf.line_eq], hat, fluent⟩
    | await _ ih =>
      rcases ih with hthrough | ⟨slots, t, hstart, chain, hat, fluent⟩
      · exact Or.inl hthrough
      · exact Or.inr ⟨slots, t, hstart, chain, at_awaitChunk hat, fluent⟩
  handed {p q next} sound h polled := by
    have hcases := poll_cases sound
    rw [polled] at hcases
    cases hcases with
    | through _ _ finished => exact Or.inl finished
    | failure => exact Or.inl rfl
    | rejected => exact Or.inl rfl
    | batch settled delivered evaluated =>
      obtain ⟨-, batch, after, hevaluate, hafter⟩ := h.evaluates sound settled delivered
      obtain ⟨-, rfl⟩ := Prod.mk.inj (Except.ok.inj (evaluated.symm.trans hevaluate))
      exact hafter

theorem Ordered.poll_ok (h : p.Ordered start stop) (sound : p.Sound) (fault : Fault) :
    p.poll ≠ .error fault := by
  intro hp
  have hcases := poll_cases sound
  rw [hp] at hcases
  cases hcases with
  | broken settled delivered evaluated =>
    obtain ⟨-, batch, after, hevaluate, -⟩ := h.evaluates sound settled delivered
    rw [evaluated] at hevaluate
    cases hevaluate

end Pipeline

namespace Execution

variable {start stop : Int} {x y : Execution}

theorem turn_ok (h : x.pipeline.Ordered start stop) (sound : x.Sound) (fault : Fault) :
    x.turn ≠ .error fault := by
  intro ht
  have hcases := turn_cases sound.pipeline
  rw [ht] at hcases
  cases hcases with
  | broken _ waits polled =>
    have hordered := (Pipeline.lasting_ordered start stop).waits h waits
    exact hordered.poll_ok (waits.sound sound.pipeline) fault polled

/-- A pull of an execution whose windows come in order does not break off. -/
theorem pull_ok (h : x.pipeline.Ordered start stop) (sound : x.Sound) : ∃ e y, x.pull = .ok (e, y) := by
  have hcases := pull_cases sound
  cases hp : x.pull with
  | ok result => exact ⟨result.1, result.2, rfl⟩
  | error fault =>
    rw [hp] at hcases
    cases hcases with
    | broken quiet turn =>
      have hordered := lasting_of_silently (Pipeline.lasting_ordered start stop) sound h quiet
      exact absurd turn (turn_ok hordered (quiet.advances sound).sound fault)

end Execution

end SeriesStream
