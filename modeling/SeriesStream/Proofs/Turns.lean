import SeriesStream.Execution
import SeriesStream.Proofs.Course

namespace SeriesStream

namespace Fetcher

/-- The latest time at which this fetcher still holds its consumer up. -/
def horizon (f : Fetcher) : Nat := max f.now (f.due?.getD f.now)

theorem asked_demand (f : Fetcher) : f.demand.asked = f.asked := by
  obtain ⟨h, _⟩ | ⟨_, free, ⟨_, h⟩ | ⟨w, ws, _, h⟩⟩ := f.demand_cases <;> rw [h]
  · rfl
  · simp [asked, free]

theorem now_start (f : Fetcher) : f.start.now = f.now := by
  rcases f.start_cases with h | ⟨w, hw⟩
  · rw [h]
  · rw [start_of_spawned hw]

theorem horizon_demand (f : Fetcher) : f.demand.horizon = f.horizon := by
  obtain ⟨h, _⟩ | ⟨_, free, ⟨_, h⟩ | ⟨w, ws, _, h⟩⟩ := f.demand_cases <;> rw [h]
  · rfl
  · simp [horizon, due?, free]

theorem waitUntil_of_running {f : Fetcher} {w : Window} {due t : Nat} {o : FetchOutcome}
    (h : f.inFlight = some (.running w due o)) (early : f.now < t) (hdue : t ≤ due) :
    f.waitUntil t = { f with now := t } := by
  have hstart : f.start = f := start_eq_self (by simp [h])
  have hlate : f.due?.any (· < t) = false := by simpa [due?, h] using hdue
  simp [waitUntil, hstart, hlate, Nat.not_le.mpr early]

theorem now_waitForTask {f : Fetcher} {w : Window} {due : Nat} {o : FetchOutcome}
    (h : f.inFlight = some (.running w due o)) : f.waitForTask.now = max f.now due := by
  have hstart : f.start = f := start_eq_self (by simp [h])
  simp [waitForTask, hstart, due?, h]

end Fetcher

namespace Execution

/-- What becomes of what the pipeline hands out. -/
inductive Reacted (x : Execution) : NextBatch → Turn × Execution → Prop
  | through : Reacted x none (.silent, { x with phase := .closing })
  | failure (e : QueryError) : Reacted x (some (.error e))
      (.event (.error e.render), { x with phase := .closing, failed := true })
  | blank {b : WindowBatch} (blank : b.results.isEmpty = true) : Reacted x (some (.ok b)) (.silent, x)
  | shown {b : WindowBatch} (shown : b.results.isEmpty = false) :
      Reacted x (some (.ok b)) (.event (.data b.results), x)

theorem react_cases (x : Execution) (next : NextBatch) : x.Reacted next (x.react next) := by
  match next with
  | none => exact .through
  | some (.error e) => exact .failure e
  | some (.ok b) =>
    cases hb : b.results.isEmpty with
    | true => simpa [react, hb] using Reacted.blank (x := x) hb
    | false => simpa [react, hb] using Reacted.shown (x := x) hb

/-- How a streaming turn can wait for its pipeline: not at all, or to find nothing ready, or for the answer that is
due before the next beat, or else for that beat. -/
inductive Waited (x : Execution) : Pipeline → Prop
  | none : Waited x x.pipeline
  | idle {q : Pipeline} (polled : x.pipeline.poll = .ok (.pending, q)) : Waited x q
  | answer {q : Pipeline} {w : Window} {due : Nat} {o : FetchOutcome}
      (polled : x.pipeline.poll = .ok (.pending, q)) (early : q.fetcher.now < x.nextBeat)
      (running : q.fetcher.start.inFlight = some (.running w due o)) (soon : due < x.nextBeat) :
      Waited x ⟨q.fetcher.start.waitForTask, q.evaluator⟩
  | pause {q : Pipeline} {w : Window} {due : Nat} {o : FetchOutcome}
      (polled : x.pipeline.poll = .ok (.pending, q)) (early : q.fetcher.now < x.nextBeat)
      (running : q.fetcher.start.inFlight = some (.running w due o)) (late : x.nextBeat ≤ due) :
      Waited x ⟨q.fetcher.start.waitUntil x.nextBeat, q.evaluator⟩

/-- What a streaming turn does once it has waited: it beats, or reacts to what the pipeline hands out. -/
inductive Streamed (x : Execution) : Except Fault (Turn × Execution) → Prop
  | beat {p : Pipeline} {n : Nat} {r : Turn × Execution} (waited : x.Waited p)
      (reached : x.nextBeat ≤ p.fetcher.now) (result : beat { x with pipeline := p, choices := n } = r) :
      Streamed x (.ok r)
  | handed {p q : Pipeline} {next : NextBatch} {n : Nat} {r : Turn × Execution} (waited : x.Waited p)
      (polled : p.poll = .ok (.ready next, q)) (result : react { x with pipeline := q, choices := n } next = r) :
      Streamed x (.ok r)
  | broken {p : Pipeline} {fault : Fault} (waited : x.Waited p) (polled : p.poll = .error fault) :
      Streamed x (.error fault)

variable {x : Execution}

theorem streamed_of_await {q : Pipeline} {n : Nat} (sound : x.pipeline.Sound)
    (polled : x.pipeline.poll = .ok (.pending, q)) (early : q.fetcher.now < x.nextBeat) :
    x.Streamed (await { x with pipeline := q, choices := n }) := by
  obtain ⟨-, w, busy⟩ := Pipeline.demand_of_pending sound polled
  obtain ⟨due, o, running⟩ := Fetcher.running_start busy
  unfold await
  simp only
  split
  next hdue =>
    have soon : due < x.nextBeat := by simpa [Fetcher.due?, running] using hdue
    have waited := Waited.answer polled early running soon
    cases hp : Pipeline.poll ⟨q.fetcher.start.waitForTask, q.evaluator⟩ with
    | error fault => exact .broken waited hp
    | ok result =>
      obtain ⟨next, r⟩ := result
      cases next with
      | pending => exact absurd hp (Pipeline.poll_after_task sound polled r)
      | ready next => exact .handed waited hp rfl
  next hdue =>
    have late : x.nextBeat ≤ due := by simpa [Fetcher.due?, running] using hdue
    have hwait := Fetcher.waitUntil_of_running running (by rwa [q.fetcher.now_start]) late
    exact .beat (.pause polled early running late) (by simp [hwait]) rfl

theorem streamed_of_turn (sound : x.pipeline.Sound) (phase : x.phase = .streaming) : x.Streamed x.turn := by
  unfold turn
  split
  next ended => simp [phase] at ended
  next closing => simp [phase] at closing
  next =>
    simp only
    split
    next hbeat => exact .beat .none (of_decide_eq_true hbeat.1) rfl
    next =>
      cases hp : x.pipeline.poll with
      | error fault => exact .broken .none hp
      | ok result =>
        obtain ⟨next, q⟩ := result
        cases next with
        | ready next => exact .handed .none hp rfl
        | pending =>
          by_cases late : x.nextBeat ≤ q.fetcher.now
          · have hbeat := Streamed.beat (n := x.choices + 1) (.idle hp) late rfl
            simpa [bind, Except.bind, pure, Except.pure, beatDue, now, late] using hbeat
          · have hawait := streamed_of_await (n := x.choices + 1) sound hp (Nat.not_le.mp late)
            simpa [bind, Except.bind, beatDue, now, late] using hawait

theorem Waited.waits {p : Pipeline} (h : x.Waited p) (sound : x.pipeline.Sound) : x.pipeline.Waits p := by
  cases h with
  | none => exact .refl
  | idle polled => exact Pipeline.waits_of_poll sound polled
  | answer polled =>
    exact .fetcher (Pipeline.waits_of_poll sound polled) Fetcher.Waits.refl.start.waitForTask
  | pause polled =>
    exact .fetcher (Pipeline.waits_of_poll sound polled) (Fetcher.Waits.refl.start.waitUntil _)

/-- Until a beat either the first request went out, or nothing did and the beat is no later than the answer. -/
theorem Waited.nearer {p : Pipeline} (h : x.Waited p) (sound : x.pipeline.Sound)
    (reached : x.nextBeat ≤ p.fetcher.now) :
    x.pipeline.fetcher.asked < p.fetcher.asked ∨
      p.fetcher.asked = x.pipeline.fetcher.asked ∧ p.fetcher.horizon = x.pipeline.fetcher.horizon ∧
        x.nextBeat ≤ p.fetcher.horizon := by
  cases h with
  | none => exact Or.inr ⟨rfl, rfl, Nat.le_trans reached (Nat.le_max_left _ _)⟩
  | idle polled =>
    obtain ⟨hq, -⟩ := Pipeline.demand_of_pending sound polled
    refine Or.inr ⟨?_, ?_, Nat.le_trans reached (Nat.le_max_left _ _)⟩
    · rw [hq, Fetcher.asked_demand]
    · rw [hq, Fetcher.horizon_demand]
  | @answer q w due o polled early running soon =>
    have hnow : q.fetcher.start.waitForTask.now = max q.fetcher.start.now due :=
      Fetcher.now_waitForTask running
    rw [q.fetcher.now_start] at hnow
    simp only at reached
    omega
  | @pause q w due o polled early running late =>
    obtain ⟨hq, w', busy⟩ := Pipeline.demand_of_pending sound polled
    have hwait := Fetcher.waitUntil_of_running running (by rwa [q.fetcher.now_start]) late
    have hasked : (q.fetcher.start.waitUntil x.nextBeat).asked = 1 := by
      simp [hwait, Fetcher.asked, running]
    have hhorizon : (q.fetcher.start.waitUntil x.nextBeat).horizon = due := by
      simp [hwait, Fetcher.horizon, Fetcher.due?, running, late]
    have hbefore : q.fetcher.asked = x.pipeline.fetcher.asked := by rw [hq, Fetcher.asked_demand]
    rcases busy with hspawned | ⟨due', o', hrunning⟩
    · have hzero : q.fetcher.asked = 0 := by simp [Fetcher.asked, hspawned]
      left
      show x.pipeline.fetcher.asked < (q.fetcher.start.waitUntil x.nextBeat).asked
      omega
    · have hone : q.fetcher.asked = 1 := by simp [Fetcher.asked, hrunning]
      have hdue' : due' = due := by
        rw [Fetcher.start_eq_self (by simp [hrunning]), hrunning] at running
        simpa using (Task.running.inj (Option.some.inj running)).2.1
      have hsame : q.fetcher.horizon = x.pipeline.fetcher.horizon := by rw [hq, Fetcher.horizon_demand]
      have hmax : q.fetcher.horizon = due := by
        simp [Fetcher.horizon, Fetcher.due?, hrunning, hdue']
        omega
      exact Or.inr ⟨hasked.trans (by omega), hhorizon.trans (by omega), hhorizon.symm ▸ late⟩

/-- What one turn can do: say the end, or `close`, or give a beat after some waiting, or tell what
the pipeline hands out after some waiting. -/
inductive Turned (x : Execution) : Except Fault (Turn × Execution) → Prop
  | ended (phase : x.phase = .finished) : Turned x (.ok (.ended, x))
  | closed (phase : x.phase = .closing) : Turned x (.ok (.event .close, { x with phase := .finished }))
  | beat {p : Pipeline} {n : Nat} {r : Turn × Execution} (phase : x.phase = .streaming)
      (waits : x.pipeline.Waits p) (reached : x.nextBeat ≤ p.fetcher.now)
      (nearer : x.pipeline.fetcher.asked < p.fetcher.asked ∨
        p.fetcher.asked = x.pipeline.fetcher.asked ∧
          p.fetcher.horizon = x.pipeline.fetcher.horizon ∧ x.nextBeat ≤ p.fetcher.horizon)
      (result : beat { x with pipeline := p, choices := n } = r) : Turned x (.ok r)
  | handed {p q : Pipeline} {next : NextBatch} {n : Nat} {r : Turn × Execution}
      (phase : x.phase = .streaming) (waits : x.pipeline.Waits p)
      (polled : p.poll = .ok (.ready next, q))
      (reacted : Reacted { x with pipeline := q, choices := n } next r) : Turned x (.ok r)
  | broken {p : Pipeline} {fault : Fault} (phase : x.phase = .streaming) (waits : x.pipeline.Waits p)
      (polled : p.poll = .error fault) : Turned x (.error fault)

theorem turn_cases (sound : x.pipeline.Sound) : x.Turned x.turn := by
  cases phase : x.phase with
  | finished => simpa [turn, phase] using Turned.ended phase
  | closing => simpa [turn, phase] using Turned.closed phase
  | streaming =>
    have hstreamed := streamed_of_turn sound phase
    generalize x.turn = result at hstreamed
    cases hstreamed with
    | beat waited reached result =>
      exact .beat phase (waited.waits sound) reached (waited.nearer sound reached) result
    | handed waited polled result => exact .handed phase (waited.waits sound) polled (result ▸ react_cases _ _)
    | broken waited polled => exact .broken phase (waited.waits sound) polled

end Execution

end SeriesStream
