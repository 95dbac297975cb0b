import SeriesStream.Pipeline
import SeriesStream.Proofs.Evaluation
import SeriesStream.Proofs.Fetching

namespace SeriesStream

structure CourseStep where
  window : Window
  result : Except Fault (Except QueryError WindowBatch)

/-- What an evaluator makes of a line of fetches, up to the first window that fails. -/
def courseOf : List (Window × Except QueryError Chunk) → Evaluator → List CourseStep
  | [], _ => []
  | (w, .error e) :: _, _ => [⟨w, .ok (.error e)⟩]
  | (w, .ok c) :: rest, e =>
    match e.evaluate c with
    | .error fault => [⟨w, .error fault⟩]
    | .ok (.error failure, _) => [⟨w, .ok (.error failure)⟩]
    | .ok (.ok batch, e') => ⟨w, .ok (.ok batch)⟩ :: courseOf rest e'

/-- A course goes through the windows of its line, and as far as the first one at least. -/
theorem courseOf_cons (w : Window) (r : Except QueryError Chunk)
    (rest : List (Window × Except QueryError Chunk)) (e : Evaluator) :
    ∃ result steps, courseOf ((w, r) :: rest) e = ⟨w, result⟩ :: steps := by
  cases r with
  | error failure => exact ⟨_, _, rfl⟩
  | ok c =>
    rw [courseOf]
    split <;> exact ⟨_, _, rfl⟩

theorem Evaluator.evaluate_awaitChunk (e : Evaluator) (c : Chunk) :
    e.awaitChunk.evaluate c = e.evaluate c := by
  unfold awaitChunk
  split
  next => rfl
  next h =>
    have hawait : EvaluatorPhase.awaitingChunk.isTerminal = false := rfl
    simp only [evaluate, hawait, Bool.not_eq_true _ ▸ h]
    rfl

theorem Evaluator.fail_awaitChunk (e : Evaluator) : e.awaitChunk.fail = e.fail := by
  unfold awaitChunk
  split <;> rfl

theorem Evaluator.finish_awaitChunk (e : Evaluator) : e.awaitChunk.finish = e.finish := by
  unfold awaitChunk
  split
  next => rfl
  next h =>
    have hawait : EvaluatorPhase.awaitingChunk.isTerminal = false := rfl
    simp [finish, hawait, h]

theorem Evaluator.awaitChunk_awaitChunk (e : Evaluator) : e.awaitChunk.awaitChunk = e.awaitChunk := by
  by_cases hterminal : e.phase.isTerminal = true <;> simp [awaitChunk, hterminal]

theorem courseOf_awaitChunk (line : List (Window × Except QueryError Chunk)) (e : Evaluator) :
    courseOf line e.awaitChunk = courseOf line e := by
  match line with
  | [] => rfl
  | (w, .error failure) :: rest => rfl
  | (w, .ok c) :: rest => simp only [courseOf, e.evaluate_awaitChunk]

namespace Pipeline

/-- All that will come of the windows that are left. -/
def course (p : Pipeline) : List CourseStep := courseOf p.fetcher.line p.evaluator

/-- The requests that the backend will have received when all is over. -/
def allRequests (p : Pipeline) : List FetchRequest :=
  p.fetcher.requests ++
    (p.course.drop p.fetcher.asked).map fun s => ⟨p.fetcher.queries, s.window⟩

structure Sound (p : Pipeline) : Prop where
  fetcher : p.fetcher.Sound
  through : p.evaluator.phase.isTerminal = true → p.fetcher.finished = true

theorem allRequests_start (f : Fetcher) (e : Evaluator) :
    allRequests ⟨f.start, e⟩ = allRequests ⟨f, e⟩ := by
  rcases f.start_cases with h | ⟨w, hw⟩
  · rw [h]
  · have hline : f.line = (w, f.source.fetch f.requests.length w) ::
        f.source.fetches (f.requests.length + 1) f.pending := by simp [Fetcher.line, hw, Source.fetches]
    obtain ⟨result, steps, hsteps⟩ := courseOf_cons w (f.source.fetch f.requests.length w)
      (f.source.fetches (f.requests.length + 1) f.pending) e
    simp only [allRequests, course, Fetcher.line_start, hline, hsteps]
    simp [Fetcher.start_of_spawned hw, Fetcher.asked, hw]

theorem allRequests_demand (f : Fetcher) (e : Evaluator) :
    allRequests ⟨f.demand, e⟩ = allRequests ⟨f, e⟩ := by
  simp only [allRequests, course, Fetcher.line_demand]
  obtain ⟨h, _⟩ | ⟨_, free, ⟨_, h⟩ | ⟨w, ws, _, h⟩⟩ := f.demand_cases
  · rw [h]
  · rw [h]
    rfl
  · rw [h]
    simp [Fetcher.asked, free]

theorem allRequests_settle (f : Fetcher) (e : Evaluator) :
    allRequests ⟨f.settle, e⟩ = allRequests ⟨f, e⟩ := by
  simp only [allRequests, course, Fetcher.line_settle]
  rcases f.settle_cases with h | ⟨w, due, o, n, t, hw, h⟩
  · rw [h]
  · rw [h]
    simp [Fetcher.asked, hw]

theorem allRequests_of_waits {f g : Fetcher} (h : f.Waits g) (e : Evaluator) :
    allRequests ⟨g, e⟩ = allRequests ⟨f, e⟩ := by
  induction h with
  | refl => rfl
  | demand _ ih => rw [allRequests_demand, ih]
  | start _ ih => rw [allRequests_start, ih]
  | settle _ ih => rw [allRequests_settle, ih]
  | clock _ _ ih => exact ih

/-- What a pipeline can come to while its consumer takes nothing from it. -/
inductive Waits (p : Pipeline) : Pipeline → Prop
  | refl : Waits p p
  | fetcher {q : Pipeline} {f : Fetcher} (h : Waits p q) (hf : q.fetcher.Waits f) :
      Waits p { q with fetcher := f }
  | await {q : Pipeline} (h : Waits p q) : Waits p { q with evaluator := q.evaluator.awaitChunk }

theorem Waits.fetcher_line_eq {p q : Pipeline} (h : p.Waits q) : q.fetcher.line = p.fetcher.line := by
  induction h with
  | refl => rfl
  | fetcher _ hf ih => rw [← ih, hf.line_eq]
  | await _ ih => exact ih

theorem Waits.course_eq {p q : Pipeline} (h : p.Waits q) : q.course = p.course := by
  induction h with
  | refl => rfl
  | fetcher _ hf ih => rw [← ih, course, course, hf.line_eq]
  | await _ ih => rw [← ih, course, course, courseOf_awaitChunk]

theorem Waits.allRequests_eq {p q : Pipeline} (h : p.Waits q) : q.allRequests = p.allRequests := by
  induction h with
  | refl => rfl
  | @fetcher q f _ hf ih => rw [← ih, allRequests_of_waits hf]
  | await _ ih => rw [← ih, allRequests, allRequests, course, course, courseOf_awaitChunk]

theorem terminal_awaitChunk (e : Evaluator) :
    e.awaitChunk.phase.isTerminal = e.phase.isTerminal := by
  unfold Evaluator.awaitChunk
  split
  next => rfl
  next h => simpa [EvaluatorPhase.isTerminal] using h

theorem Waits.sound {p q : Pipeline} (h : p.Waits q) (hp : p.Sound) : q.Sound := by
  induction h with
  | refl => exact hp
  | fetcher _ hf ih => exact ⟨hf.sound ih.fetcher, fun ht => hf.finished (ih.through ht)⟩
  | await _ ih => exact ⟨ih.fetcher, fun ht => ih.through (by rwa [← terminal_awaitChunk])⟩

/-- What asking for the next batch without waiting can come to. -/
inductive Polled (p : Pipeline) : Except Fault (Poll NextBatch × Pipeline) → Prop
  | pending (running : p.fetcher.demand.finished = false)
      (busy : ∃ w, p.fetcher.demand.inFlight = some (.spawned w) ∨
        ∃ due o, p.fetcher.demand.inFlight = some (.running w due o)) :
      Polled p (.ok (.pending, ⟨p.fetcher.demand, p.evaluator.awaitChunk⟩))
  | through {q : Pipeline} (waits : p.fetcher.Waits q.fetcher) (line : p.fetcher.line = [])
      (finished : q.fetcher.finished = true) : Polled p (.ok (.ready none, q))
  | failure {w : Window} {o : FetchOutcome} {e : QueryError}
      (settled : p.fetcher.inFlight = some (.settled w o))
      (delivered : o.delivered w p.fetcher.timeout = .error e) :
      Polled p (.ok (.ready (some (.error e)), ⟨p.fetcher.cancel, p.evaluator.fail⟩))
  | rejected {w : Window} {o : FetchOutcome} {c : Chunk} {e : QueryError} {after : Evaluator}
      (settled : p.fetcher.inFlight = some (.settled w o))
      (delivered : o.delivered w p.fetcher.timeout = .ok c)
      (evaluated : p.evaluator.evaluate c = .ok (.error e, after)) :
      Polled p (.ok (.ready (some (.error e)), ⟨p.fetcher.cancel, after⟩))
  | batch {w : Window} {o : FetchOutcome} {c : Chunk} {b : WindowBatch} {after : Evaluator}
      (settled : p.fetcher.inFlight = some (.settled w o))
      (delivered : o.delivered w p.fetcher.timeout = .ok c)
      (evaluated : p.evaluator.evaluate c = .ok (.ok b, after)) :
      Polled p (.ok (.ready (some (.ok b)), ⟨p.fetcher.issueNext, after⟩))
  | broken {w : Window} {o : FetchOutcome} {c : Chunk} {fault : Fault}
      (settled : p.fetcher.inFlight = some (.settled w o))
      (delivered : o.delivered w p.fetcher.timeout = .ok c)
      (evaluated : p.evaluator.evaluate c = .error fault) : Polled p (.error fault)

theorem poll_cases {p : Pipeline} (sound : p.Sound) : p.Polled p.poll := by
  unfold poll
  by_cases hterminal : p.evaluator.phase.isTerminal = true
  · have hf := sound.through hterminal
    simpa [hterminal] using Polled.through (q := p) .refl (sound.fetcher.line_eq_nil hf) hf
  have hpolled := Fetcher.poll_cases sound.fetcher
  have hawait := p.evaluator.evaluate_awaitChunk
  simp only [hterminal, Bool.false_eq_true, ↓reduceIte]
  generalize p.fetcher.poll = result at hpolled
  cases hpolled with
  | pending running busy => exact .pending running busy
  | through line finished =>
    exact .through (q := ⟨_, _⟩) (.demand .refl) line finished
  | failure settled delivered =>
    have hfailure := Polled.failure settled delivered
    rw [← p.evaluator.fail_awaitChunk] at hfailure
    exact hfailure
  | @chunk w o c settled delivered =>
    cases he : p.evaluator.evaluate c with
    | error fault =>
      simpa [react, hawait, he, bind, Except.bind] using Polled.broken settled delivered he
    | ok outcome =>
      obtain ⟨result, after⟩ := outcome
      cases result with
      | error e =>
        simpa [react, hawait, he, bind, Except.bind, pure, Except.pure, Fetcher.cancel_issueNext] using
          Polled.rejected settled delivered he
      | ok b =>
        simpa [react, hawait, he, bind, Except.bind, pure, Except.pure] using
          Polled.batch settled delivered he

theorem evaluator_of_through {p q : Pipeline} (h : p.poll = .ok (.ready none, q)) :
    q.evaluator = p.evaluator.finish := by
  unfold poll at h
  split at h
  next hterminal =>
    obtain ⟨-, rfl⟩ := Prod.mk.inj (Except.ok.inj h)
    simp [Evaluator.finish, hterminal]
  next =>
    generalize p.fetcher.poll = polled at h
    obtain ⟨next, f⟩ := polled
    match next with
    | .pending => cases h
    | .ready none =>
      obtain ⟨-, rfl⟩ := Prod.mk.inj (Except.ok.inj h)
      exact p.evaluator.finish_awaitChunk
    | .ready (some (.error e)) => cases h
    | .ready (some (.ok c)) =>
      simp only [react, bind, Except.bind] at h
      cases he : p.evaluator.awaitChunk.evaluate c with
      | error fault => simp [he] at h
      | ok outcome =>
        obtain ⟨result, after⟩ := outcome
        cases result <;> simp [he, pure, Except.pure] at h

/-- What is handed out was the front of the course, and the rest of the course remains. -/
structure Hands (p q : Pipeline) (next : NextBatch) : Prop where
  sound : q.Sound
  requests : q.allRequests = p.allRequests
  course : ∃ w, p.course = next.toList.map (⟨w, .ok ·⟩) ++ q.course
  line : next ≠ none → q.fetcher.line.length < p.fetcher.line.length
  finished : (∀ b, next ≠ some (.ok b)) → q.fetcher.finished = true

theorem course_eq_nil {p : Pipeline} (h : p.fetcher.line = []) : p.course = [] := by
  simp [course, h, courseOf]

/-- What is called off hands nothing out any more, and no request is sent for it. -/
theorem hands_cancel {p : Pipeline} {w : Window} {o : FetchOutcome} {e : QueryError}
    (settled : p.fetcher.inFlight = some (.settled w o))
    (course : p.course = [⟨w, .ok (.error e)⟩]) (after : Evaluator) :
    p.Hands ⟨p.fetcher.cancel, after⟩ (some (.error e)) := by
  have hnil : Pipeline.course ⟨p.fetcher.cancel, after⟩ = [] := course_eq_nil (Fetcher.line_cancel _)
  have hasked : p.fetcher.asked = 1 := by simp [Fetcher.asked, settled]
  refine ⟨⟨fun _ => ⟨rfl, rfl⟩, fun _ => rfl⟩, ?_, ⟨w, ?_⟩, ?_, fun _ => rfl⟩
  · simp only [allRequests, hnil, course, hasked]
    simp [Fetcher.cancel]
  · simp [course, hnil]
  · simp [Fetcher.line_cancel, Fetcher.line_of_settled settled]

theorem hands_of_poll {p q : Pipeline} {next : NextBatch} (sound : p.Sound)
    (h : p.poll = .ok (.ready next, q)) : p.Hands q next := by
  have hcases := poll_cases sound
  rw [h] at hcases
  cases hcases with
  | through waits line finished =>
    have hline : q.fetcher.line = [] := waits.line_eq.trans line
    have hrequests := allRequests_of_waits waits p.evaluator
    have hq : q.course = [] := course_eq_nil hline
    refine ⟨⟨waits.sound sound.fetcher, fun _ => finished⟩, ?_, ⟨⟨0, 0, 0⟩, ?_⟩, ?_, fun _ => finished⟩
    · rw [← show allRequests ⟨p.fetcher, p.evaluator⟩ = p.allRequests from rfl, ← hrequests]
      simp [allRequests, hq, course_eq_nil (p := ⟨q.fetcher, p.evaluator⟩) hline]
    · simp [hq, course_eq_nil line]
    · simp
  | failure settled delivered =>
    refine hands_cancel settled ?_ _
    simp [course, Fetcher.line_of_settled settled, delivered, courseOf]
  | rejected settled delivered evaluated =>
    refine hands_cancel settled ?_ _
    simp [course, Fetcher.line_of_settled settled, delivered, courseOf, evaluated]
  | @batch w o c b after settled delivered evaluated =>
    have hcourse : p.course = ⟨w, .ok (.ok b)⟩ :: Pipeline.course ⟨p.fetcher.issueNext, after⟩ := by
      simp [course, Fetcher.line_of_settled settled, delivered, courseOf, evaluated, Fetcher.line_issueNext]
    have hasked : p.fetcher.asked = 1 := by simp [Fetcher.asked, settled]
    have hfinished : p.fetcher.issueNext.finished = false := by
      rw [Fetcher.finished_issueNext, Bool.eq_false_iff]
      exact fun hf => absurd (sound.fetcher hf).2 (by simp [settled])
    refine ⟨⟨?_, ?_⟩, ?_, ⟨w, hcourse⟩, ?_, fun hnext => absurd rfl (hnext b)⟩
    · exact fun hf => absurd hf (by simp [hfinished])
    · simp [Evaluator.phase_of_batch evaluated, EvaluatorPhase.isTerminal]
    · simp only [allRequests, hcourse, hasked, Fetcher.asked_issueNext]
      unfold Fetcher.issueNext
      split <;> simp
    · simp [Fetcher.line_issueNext, Fetcher.line_of_settled settled]

theorem waits_of_poll {p q : Pipeline} (sound : p.Sound) (h : p.poll = .ok (.pending, q)) :
    p.Waits q := by
  have hcases := poll_cases sound
  rw [h] at hcases
  cases hcases
  exact .await (.fetcher .refl (.demand .refl))

theorem busy_of_pending {p q : Pipeline} (sound : p.Sound) (h : p.poll = .ok (.pending, q)) :
    q = ⟨p.fetcher.demand, p.evaluator.awaitChunk⟩ ∧
      ∃ w, p.fetcher.demand.inFlight = some (.spawned w) ∨
        ∃ due o, p.fetcher.demand.inFlight = some (.running w due o) := by
  have hcases := poll_cases sound
  rw [h] at hcases
  cases hcases with
  | pending _ busy => exact ⟨rfl, busy⟩

theorem demand_of_pending {p q : Pipeline} (sound : p.Sound) (h : p.poll = .ok (.pending, q)) :
    q.fetcher = p.fetcher.demand ∧ ∃ w, q.fetcher.inFlight = some (.spawned w) ∨
      ∃ due o, q.fetcher.inFlight = some (.running w due o) := by
  obtain ⟨rfl, busy⟩ := busy_of_pending sound h
  exact ⟨rfl, busy⟩

/-- A task that is over is not waited for. -/
theorem ready_of_settled {p : Pipeline} {w : Window} {o : FetchOutcome} (sound : p.Sound)
    (settled : p.fetcher.inFlight = some (.settled w o)) (q : Pipeline) : p.poll ≠ .ok (.pending, q) := by
  intro h
  obtain ⟨-, v, hv⟩ := busy_of_pending sound h
  rw [Fetcher.demand_of_busy settled, settled] at hv
  simp at hv

theorem course_of_broken {p : Pipeline} {fault : Fault} (sound : p.Sound)
    (h : p.poll = .error fault) : ∃ w, p.course = [⟨w, .error fault⟩] := by
  have hcases := poll_cases sound
  rw [h] at hcases
  cases hcases with
  | broken settled delivered evaluated =>
    exact ⟨_, by simp [course, Fetcher.line_of_settled settled, delivered, courseOf, evaluated]; rfl⟩

/-- Who waits for the task that is under way does not wait in vain. -/
theorem poll_after_task {p q : Pipeline} (sound : p.Sound) (h : p.poll = .ok (.pending, q)) :
    ∀ r, Pipeline.poll ⟨q.fetcher.start.waitForTask, q.evaluator⟩ ≠ .ok (.pending, r) := by
  intro r hr
  have hq := (waits_of_poll sound h).sound sound
  obtain ⟨_, w, hw⟩ := demand_of_pending sound h
  obtain ⟨due, o, hrunning⟩ := Fetcher.running_start hw
  have hsettled := Fetcher.waitForTask_of_running hrunning
  have hwaits : q.fetcher.Waits q.fetcher.start.waitForTask := Fetcher.Waits.refl.start.waitForTask
  have hsound : Sound ⟨q.fetcher.start.waitForTask, q.evaluator⟩ :=
    ⟨hwaits.sound hq.fetcher, fun ht => hwaits.finished (hq.through ht)⟩
  exact ready_of_settled hsound hsettled r hr

end Pipeline

end SeriesStream
