import SeriesStream.Proofs.Progress

namespace SeriesStream

namespace Fetcher

/-- A fetcher whose backend answers at once, so that no task is over later than now. -/
structure Prompt (f : Fetcher) : Prop where
  replies : ∀ n r, (f.backend n r).delay = some 0
  due : ∀ t, f.due? = some t → t ≤ f.now

variable {f : Fetcher}

theorem Prompt.demand (h : f.Prompt) : f.demand.Prompt ∧ f.demand.now = f.now := by
  obtain ⟨hsame, -⟩ | ⟨-, -, ⟨-, hend⟩ | ⟨w, ws, -, hnext⟩⟩ := f.demand_cases
  · rw [hsame]
    exact ⟨h, rfl⟩
  · rw [hend]
    exact ⟨⟨h.replies, h.due⟩, rfl⟩
  · rw [hnext]
    exact ⟨⟨h.replies, by simp [due?]⟩, rfl⟩

theorem Prompt.start (h : f.Prompt) : f.start.Prompt ∧ f.start.now = f.now := by
  rcases f.start_cases with hsame | ⟨w, hw⟩
  · rw [hsame]
    exact ⟨h, rfl⟩
  · have hduration : ((f.backend f.requests.length ⟨f.queries, w⟩).within f.timeout).1 = 0 := by
      simp [Reply.within, h.replies]
    rw [start_of_spawned hw]
    refine ⟨⟨h.replies, fun t ht => ?_⟩, rfl⟩
    simp only [due?, Option.some.injEq] at ht
    show t ≤ f.now
    omega

theorem Prompt.waitForTask (h : f.Prompt) (started : f.start = f) :
    f.waitForTask.Prompt ∧ f.waitForTask.now = f.now := by
  have hnow : max f.now (f.due?.getD f.now) = f.now := by
    cases hdue : f.due? with
    | none => simp
    | some t =>
      have := h.due t hdue
      simp only [Option.getD_some]
      omega
  unfold Fetcher.waitForTask
  simp only [started, hnow]
  rcases f.settle_cases with hsame | ⟨w, due, o, fetched, failures, -, hsettle⟩
  · rw [hsame]
    exact ⟨⟨h.replies, h.due⟩, trivial⟩
  · rw [hsettle]
    exact ⟨⟨h.replies, by simp [due?]⟩, trivial⟩

theorem Prompt.issueNext (h : f.Prompt) : f.issueNext.Prompt ∧ f.issueNext.now = f.now := by
  unfold Fetcher.issueNext
  split
  next => exact ⟨⟨h.replies, by simp [due?]⟩, rfl⟩
  next => exact ⟨⟨h.replies, by simp [due?]⟩, rfl⟩

end Fetcher

theorem Pipeline.prompt_of_batch {p q : Pipeline} {b : WindowBatch} (sound : p.Sound)
    (prompt : p.fetcher.Prompt) (h : p.poll = .ok (.ready (some (.ok b)), q)) :
    q.fetcher.Prompt ∧ q.fetcher.now = p.fetcher.now := by
  have hcases := poll_cases sound
  rw [h] at hcases
  cases hcases with
  | batch => exact prompt.issueNext

namespace Execution

variable {x y : Execution}

/-- While it streams, a prompt execution has its next answer before its next beat. -/
def Prompt (x : Execution) : Prop :=
  x.phase = .streaming → x.pipeline.fetcher.Prompt ∧ x.now < x.nextBeat

theorem prompt_of_react {p q : Pipeline} {choices : Nat} {next : NextBatch} (sound : p.Sound)
    (prompt : p.fetcher.Prompt) (early : p.fetcher.now < x.nextBeat)
    (polled : p.poll = .ok (.ready next, q)) {t : Turn}
    (h : react { x with pipeline := q, choices := choices } next = (t, y)) :
    y.Prompt ∧ ∀ message, t ≠ .event (.info message) := by
  have hreacted := react_cases { x with pipeline := q, choices := choices } next
  rw [h] at hreacted
  cases hreacted with
  | through => exact ⟨fun hphase => (by cases hphase), by simp⟩
  | failure e => exact ⟨fun hphase => (by cases hphase), by simp⟩
  | blank =>
    obtain ⟨hprompt, hnow⟩ := Pipeline.prompt_of_batch sound prompt polled
    exact ⟨fun _ => ⟨hprompt, Nat.lt_of_le_of_lt (Nat.le_of_eq hnow) early⟩, by simp⟩
  | shown =>
    obtain ⟨hprompt, hnow⟩ := Pipeline.prompt_of_batch sound prompt polled
    exact ⟨fun _ => ⟨hprompt, Nat.lt_of_le_of_lt (Nat.le_of_eq hnow) early⟩, by simp⟩

/-- A prompt execution waits for no beat, and its answer takes no time. -/
theorem prompt_of_waited {p : Pipeline} (h : x.Waited p) (sound : x.pipeline.Sound) (prompt : x.pipeline.fetcher.Prompt)
    (early : x.now < x.nextBeat) : p.fetcher.Prompt ∧ p.fetcher.now = x.now := by
  obtain ⟨hdemand, hnow⟩ := prompt.demand
  have hidle {q : Pipeline} (polled : x.pipeline.poll = .ok (.pending, q)) :
      q.fetcher.Prompt ∧ q.fetcher.now = x.now := by
    obtain ⟨hq, -⟩ := Pipeline.demand_of_pending sound polled
    exact hq ▸ ⟨hdemand, hnow⟩
  cases h with
  | none => exact ⟨prompt, rfl⟩
  | idle polled => exact hidle polled
  | @answer q w due o polled _ running soon =>
    obtain ⟨hstart, hsame⟩ := (hidle polled).1.start
    obtain ⟨hwait, hstill⟩ := hstart.waitForTask (Fetcher.start_eq_self (by simp [running]))
    exact ⟨hwait, hstill.trans (hsame.trans (hidle polled).2)⟩
  | @pause q w due o polled _ running late =>
    obtain ⟨hstart, hsame⟩ := (hidle polled).1.start
    have hdue := hstart.due due (by simp [Fetcher.due?, running])
    have hq := (hidle polled).2
    exact absurd early (by omega)

theorem prompt_of_turn {t : Turn} (sound : x.Sound) (prompt : x.Prompt) (h : x.turn = .ok (t, y)) :
    y.Prompt ∧ ∀ message, t ≠ .event (.info message) := by
  cases phase : x.phase with
  | finished =>
    obtain ⟨rfl, rfl⟩ : Turn.ended = t ∧ x = y := by simpa [turn, phase] using h
    exact ⟨prompt, by simp⟩
  | closing =>
    simp only [turn, phase, Except.ok.injEq, Prod.mk.injEq] at h
    obtain ⟨rfl, rfl⟩ := h
    exact ⟨fun hphase => (by cases hphase), by simp⟩
  | streaming =>
    obtain ⟨hprompt, hearly⟩ := prompt phase
    have hstreamed := streamed_of_turn sound.pipeline phase
    rw [h] at hstreamed
    cases hstreamed with
    | beat waited reached result =>
      obtain ⟨-, hnow⟩ := prompt_of_waited waited sound.pipeline hprompt hearly
      omega
    | handed waited polled result =>
      obtain ⟨hwaited, hnow⟩ := prompt_of_waited waited sound.pipeline hprompt hearly
      have hsound := (waited.waits sound.pipeline).sound sound.pipeline
      exact prompt_of_react hsound hwaited (by omega) polled result

theorem Silently.prompt (h : Silently x y) (sound : x.Sound) (prompt : x.Prompt) : y.Prompt := by
  induction h with
  | refl => exact prompt
  | turn first _ ih => exact ih (advances_of_turn sound first).sound (prompt_of_turn sound prompt first).1

theorem prompt_of_pull {e : StreamEvent} (sound : x.Sound) (prompt : x.Prompt)
    (h : x.pull = .ok (some e, y)) :
    y.Prompt ∧ e.isInfo = false ∧ y.remaining < x.remaining := by
  have hcases := pull_cases sound
  rw [h] at hcases
  cases hcases with
  | @event v z _ quiet turn =>
    have hv := (quiet.advances sound).sound
    obtain ⟨hprompt, hnone⟩ := prompt_of_turn hv (quiet.prompt sound prompt) turn
    have hle : v.remaining ≤ x.remaining := by
      rcases quiet.nearer sound with rfl | hless
      · exact Nat.le_refl _
      · exact Nat.le_of_lt hless
    have hphase := phase_of_turn hv turn
    have hless : z.remaining < v.remaining := by
      cases e with
      | info message => exact absurd rfl (hnone message)
      | data results => exact hphase.2.2.2
      | error message => exact hphase.2.2
      | close => simp [remaining, hphase.1, hphase.2]
    refine ⟨hprompt, ?_, Nat.lt_of_lt_of_le hless hle⟩
    cases e with
    | info message => exact absurd rfl (hnone message)
    | data results => rfl
    | error message => rfl
    | close => rfl

/-- Who pulls a prompt execution to its end is told what the course has to tell and nothing else. -/
theorem drained_of_prompt {pulls : Nat} (sound : x.Sound) (prompt : x.Prompt)
    (whole : ∀ s ∈ x.pipeline.course, ∃ result, s.result = .ok result) (enough : x.remaining < pulls) :
    ∃ told y, drainWithin pulls x = .ok (told, y) ∧ told.map (·.2) = x.future := by
  induction pulls generalizing x with
  | zero => omega
  | succ pulls ih =>
    cases hp : x.pull with
    | error fault =>
      obtain ⟨-, -, w, hw⟩ := future_of_broken sound hp
      obtain ⟨result, hresult⟩ := whole _ hw
      cases hresult
    | ok result =>
      obtain ⟨e, y⟩ := result
      cases e with
      | none =>
        have hphase := (phase_of_pull sound hp).1
        exact ⟨[], y, by simp [drainWithin, hp, bind, Except.bind, pure, Except.pure], by simp [future, hphase]⟩
      | some e =>
        have hadv := advances_of_pull sound hp
        obtain ⟨hprompt, htold, hless⟩ := prompt_of_pull sound prompt hp
        obtain ⟨told, z, hdrain, hrest⟩ := ih hadv.sound hprompt
          (fun s hs => whole s (hadv.course.subset hs)) (by omega)
        refine ⟨(y.now, e) :: told, z, ?_, ?_⟩
        · simp [drainWithin, hp, hdrain, bind, Except.bind, pure, Except.pure]
        · simp [hadv.future, htold, hrest]

/-- A beat that is due goes first, and makes an execution prompt whose fetcher is so. -/
theorem pull_of_due (there : x.outcome = none) (phase : x.phase = .streaming) (due : x.nextBeat = x.now)
    (beating : 0 < x.options.heartbeat) (first : x.lead x.choices = .heartbeat)
    (prompt : x.pipeline.fetcher.Prompt) :
    ∃ y, x.pull = .ok (some (.info x.options.message), y) ∧ y.Prompt ∧ y.pipeline = x.pipeline ∧
      y.phase = .streaming := by
  refine ⟨{ x with
      choices := x.choices + 1
      nextBeat := x.now + x.options.heartbeat
      events := x.events.count "info" }, ?_, fun _ => ⟨prompt, ?_⟩, rfl, phase⟩
  · simp only [pull, there, Option.isSome_none, Bool.false_eq_true, ↓reduceIte, pullWithin, turn, phase,
      first, beatDue, now, due, Nat.le_refl, decide_true, and_self, beat, ite_self, bind, Except.bind, pure,
      Except.pure]
    rfl
  · show x.now < x.now + x.options.heartbeat
    omega

theorem started_of_cut {plan : Plan} {windows : List Window} (backend : Backend) {options : StreamOptions}
    (lead : Nat → Lead) (cut : partition plan.step plan.start plan.stop options.multiplier = .ok windows)
    (beating : 0 < options.heartbeat) :
    ∃ x, execute plan backend options lead = .ok (.ok x) ∧ Started plan windows backend options x := by
  exact ⟨_, execute_of_cut backend lead cut beating, started_begun backend lead cut beating⟩

/-- An execution whose backend answers at once beats when it begins and never again. -/
theorem drained_of_execute {plan : Plan} {windows : List Window} {backend : Backend} {options : StreamOptions}
    (hx : execute plan backend options (fun _ => .heartbeat) = .ok (.ok x))
    (started : Started plan windows backend options x) (replies : ∀ n r, (backend n r).delay = some 0)
    (whole : ∀ s ∈ plan.courseOver windows backend options, ∃ result, s.result = .ok result) :
    ∃ told y, x.drain = .ok (told, y) ∧
      told.map (·.2) = .info options.message :: eventsOf (plan.courseOver windows backend options) := by
  have hbeating := started.beating
  obtain ⟨y, hpull, hprompt, hpipeline, hphase⟩ : ∃ y, x.pull = .ok (some (.info x.options.message), y) ∧
      y.Prompt ∧ y.pipeline = x.pipeline ∧ y.phase = .streaming := by
    simp only [execute, started.cut, Nat.ne_of_gt (started.options_eq ▸ hbeating), ↓reduceIte,
      Except.ok.injEq] at hx
    subst hx
    exact pull_of_due rfl rfl rfl hbeating rfl ⟨replies, by simp [Fetcher.create, Fetcher.due?]⟩
  have hadv := advances_of_pull started.sound hpull
  have hcourse : y.pipeline.course = plan.courseOver windows backend options := by
    rw [hpipeline, started.course]
  have hbound : x.windowsLeft + 4 ≤ x.pullBound := Nat.le_add_right _ _
  have henough : y.remaining < x.pullBound - 1 := by
    have hremaining : y.remaining = x.remaining := by simp [remaining, hphase, started.phase, hpipeline]
    have hle := x.remaining_le
    omega
  obtain ⟨told, z, hdrain, htold⟩ :=
    drained_of_prompt hadv.sound hprompt (hcourse ▸ whole) henough
  refine ⟨(y.now, .info options.message) :: told, z, ?_, ?_⟩
  · rw [drain, show x.pullBound = (x.pullBound - 1) + 1 by omega, ← started.options_eq]
    simp [drainWithin, hpull, hdrain, bind, Except.bind, pure, Except.pure]
  · simp [htold, future, hphase, hcourse]

end Execution

end SeriesStream
