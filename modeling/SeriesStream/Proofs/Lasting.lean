import SeriesStream.Proofs.ReadAhead

namespace SeriesStream

/-- A fetcher that is through is not changed by being called off. -/
theorem Fetcher.Spent.cancel_eq {f : Fetcher} (h : f.Spent) : f.cancel = f := by
  obtain ⟨finished, pending, inFlight⟩ := h
  simp [cancel, ← finished, ← pending, ← inFlight]

/-- A condition on pipelines that no waiting and no batch handed out can break. -/
structure Pipeline.Lasting (P : Pipeline → Prop) : Prop where
  waits {p q : Pipeline} (h : P p) (waits : p.Waits q) : P q
  handed {p q : Pipeline} {next : NextBatch} (sound : p.Sound) (h : P p)
    (polled : p.poll = .ok (.ready next, q)) : P q

namespace Execution

variable {P : Pipeline → Prop} {x y : Execution}

theorem lasting_of_turn {t : Turn} (lasting : Pipeline.Lasting P) (sound : x.Sound) (h : P x.pipeline)
    (turned : x.turn = .ok (t, y)) : P y.pipeline := by
  have hcases := turn_cases sound.pipeline
  rw [turned] at hcases
  cases hcases with
  | ended => exact h
  | closed => exact h
  | beat _ waits _ _ result =>
    obtain ⟨-, rfl⟩ := Prod.mk.inj result
    exact lasting.waits h waits
  | @handed p q next n _ phase waits polled reacted =>
    have hq : P q := lasting.handed (waits.sound sound.pipeline) (lasting.waits h waits) polled
    cases reacted <;> exact hq

theorem lasting_of_silently (lasting : Pipeline.Lasting P) (sound : x.Sound) (h : P x.pipeline)
    (quiet : Silently x y) : P y.pipeline := by
  induction quiet with
  | refl => exact h
  | turn first _ ih => exact ih (advances_of_turn sound first).sound (lasting_of_turn lasting sound h first)

theorem drop_of_finished (sound : x.Sound) (phase : x.phase = .finished) : x.drop.pipeline = x.pipeline := by
  have hspent := sound.pipeline.fetcher.spent (sound.through (by simp [phase]))
  simp [drop, Pipeline.drop, hspent.cancel_eq]

theorem lasting_of_pull {e : Option StreamEvent} (lasting : Pipeline.Lasting P) (sound : x.Sound)
    (h : P x.pipeline) (pulled : x.pull = .ok (e, y)) : P y.pipeline := by
  have hcases := pull_cases sound
  rw [pulled] at hcases
  cases hcases with
  | past => exact h
  | event quiet turn =>
    have hquiet := lasting_of_silently lasting sound h quiet
    have hturn := lasting_of_turn lasting (quiet.advances sound).sound hquiet turn
    exact hturn
  | ended quiet turn =>
    have hsound := (quiet.advances sound).sound
    rw [drop_of_finished hsound (phase_of_turn hsound turn).1]
    exact lasting_of_silently lasting sound h quiet

theorem lasting_of_sleep (lasting : Pipeline.Lasting P) (h : P x.pipeline) (duration : Nat) :
    P (x.sleep duration).pipeline :=
  lasting.waits h (.fetcher .refl (Fetcher.Waits.refl.waitUntil _))

theorem lasting_of_follow (lasting : Pipeline.Lasting P) (sound : x.Sound) (h : P x.pipeline)
    {steps : List ConsumerStep} (final : (x.follow steps).final = .ok y) : P y.pipeline := by
  induction steps generalizing x with
  | nil =>
    obtain rfl := Except.ok.inj final
    exact h
  | cons step steps ih =>
    cases step with
    | sleep d => exact ih (advances_sleep sound d).sound (lasting_of_sleep lasting h d) final
    | pull =>
      cases hp : x.pull with
      | error fault => simp [follow, hp] at final
      | ok result =>
        obtain ⟨e, z⟩ := result
        have hz := lasting_of_pull lasting sound h hp
        exact ih (advances_of_pull sound hp).sound hz (by simpa [follow, hp] using final)

/-- A condition that also survives the end of the consumer holds at every point of an execution. -/
theorem lasting_of_visits {s : Source} {windows : List Window} (lasting : Pipeline.Lasting P)
    (dropped : ∀ p : Pipeline, P p → P p.drop) (ahead : x.Ahead s windows) (h : P x.pipeline)
    (visits : x.Visits y) : P y.pipeline := by
  induction visits with
  | here => exact h
  | @pull y z e hv pulled ih =>
    by_cases gone : y.outcome.isSome = true
    · obtain ⟨-, rfl⟩ : none = e ∧ y = z := by simpa [Execution.pull, gone] using pulled
      exact ih
    · exact lasting_of_pull lasting ((ahead.visits hv).sound (by simpa using gone)) ih pulled
  | turn hv there turned ih => exact lasting_of_turn lasting ((ahead.visits hv).sound there) ih turned
  | wait _ _ _ waits ih => exact lasting.waits ih waits
  | sleep _ duration ih => exact lasting_of_sleep lasting ih duration
  | drop _ ih => exact dropped _ ih

end Execution

end SeriesStream
