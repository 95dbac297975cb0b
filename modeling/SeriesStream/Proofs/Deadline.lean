import SeriesStream.Proofs.Harvest
import SeriesStream.Proofs.Heartbeats
import SeriesStream.Proofs.Ledger

namespace SeriesStream

theorem Reply.within_le (r : Reply) (timeout : Nat) : (r.within timeout).1 ≤ timeout := by
  unfold Reply.within
  split
  next => exact Nat.le_refl _
  next delay _ =>
    split
    next => exact Nat.le_refl _
    next hnot => exact Nat.not_lt.mp hnot

namespace Fetcher

variable {f g : Fetcher}

/-- By when all windows that are left are over, whatever the backend replies: the running task when it is
due, and each window after it within its timeout. -/
def latest (f : Fetcher) : Nat := f.horizon + (f.line.length - f.asked) * f.timeout

theorem now_le_latest (f : Fetcher) : f.now ≤ f.latest :=
  Nat.le_trans (Nat.le_max_left _ _) (Nat.le_add_right _ _)

theorem Waits.source_eq (h : f.Waits g) : g.source = f.source := by
  induction h with
  | refl => rfl
  | @demand g _ ih =>
    rw [← ih]
    obtain ⟨h, _⟩ | ⟨_, _, ⟨_, h⟩ | ⟨_, _, _, h⟩⟩ := g.demand_cases <;> rw [h] <;> rfl
  | @start g _ ih =>
    rw [← ih]
    rcases g.start_cases with h | ⟨w, hw⟩
    · rw [h]
    · rw [start_of_spawned hw]
      rfl
  | @settle g _ ih =>
    rw [← ih]
    rcases g.settle_cases with h | ⟨_, _, _, _, _, _, h⟩ <;> rw [h]
    rfl
  | clock _ _ ih => exact ih

theorem Waits.timeout_eq (h : f.Waits g) : g.timeout = f.timeout := congrArg Source.timeout h.source_eq

theorem now_demand (f : Fetcher) : f.demand.now = f.now := by
  obtain ⟨h, _⟩ | ⟨_, _, ⟨_, h⟩ | ⟨_, _, _, h⟩⟩ := f.demand_cases <;> rw [h]

theorem now_issueNext (f : Fetcher) : f.issueNext.now = f.now := by
  unfold issueNext
  split <;> rfl

theorem latest_demand (f : Fetcher) : f.demand.latest = f.latest := by
  rw [latest, latest, horizon_demand, line_demand, asked_demand, (Waits.refl.demand : f.Waits _).timeout_eq]

/-- A request that is sent has no longer than its timeout. -/
theorem latest_start (f : Fetcher) : f.start.latest ≤ f.latest := by
  rcases f.start_cases with h | ⟨w, hw⟩
  · exact Nat.le_of_eq (congrArg Fetcher.latest h)
  · have hreply := Reply.within_le (f.backend f.requests.length ⟨f.queries, w⟩) f.timeout
    have hbefore : f.horizon = f.now := by simp [horizon, due?, hw]
    have hleft : f.line.length = f.pending.length + 1 := by simp [length_line, hw]
    rw [latest, latest, line_start, hbefore, hleft, start_of_spawned hw]
    simp only [asked, hw, horizon, due?, Option.getD_some, Nat.add_sub_cancel, Nat.sub_zero, Nat.succ_mul]
    omega

theorem latest_waitForTask {w : Window} {due : Nat} {o : FetchOutcome}
    (h : f.inFlight = some (.running w due o)) : f.waitForTask.latest = f.latest := by
  have hline : f.waitForTask.line = f.line := (Waits.refl.waitForTask : f.Waits _).line_eq
  have htimeout : f.waitForTask.timeout = f.timeout := (Waits.refl.waitForTask : f.Waits _).timeout_eq
  have hsettled := waitForTask_of_running h
  have hnow := now_waitForTask h
  simp [latest, hline, htimeout, asked, hsettled, h, horizon, due?, hnow]

theorem latest_waitUntil {w : Window} {due t : Nat} {o : FetchOutcome}
    (h : f.inFlight = some (.running w due o)) (early : f.now < t) (hdue : t ≤ due) :
    (f.waitUntil t).latest = f.latest := by
  rw [waitUntil_of_running h early hdue]
  have hhorizon : horizon { f with now := t } = f.horizon := by
    simp only [horizon, due?, h, Option.getD_some]
    omega
  rw [latest, latest, hhorizon]
  rfl

theorem latest_issueNext {w : Window} {o : FetchOutcome} (h : f.inFlight = some (.settled w o)) :
    f.issueNext.latest = f.latest := by
  have hidle : f.issueNext.due? = none := by
    unfold issueNext
    split <;> rfl
  have hdue : f.due? = none := by simp [due?, h]
  have hhorizon : f.issueNext.horizon = f.horizon := by
    rw [horizon, horizon, hidle, hdue, now_issueNext]
  have htimeout : f.issueNext.timeout = f.timeout := by
    unfold issueNext
    split <;> rfl
  have hleft : f.line.length = f.issueNext.line.length + 1 := by
    simp [line_issueNext, line_of_settled h]
  have hasked : f.asked = 1 := by simp [asked, h]
  rw [latest, latest, hhorizon, htimeout, hleft, asked_issueNext, hasked]
  rfl

theorem latest_of_spent (h : f.Spent) : f.latest = f.now := by
  simp [latest, horizon, due?, h.inFlight, h.sound.line_eq_nil h.finished]

theorem now_of_polled {r : Poll (Option (Except QueryError Chunk)) × Fetcher} (h : f.Polled r) :
    r.2.now = f.now := by
  cases h with
  | pending => exact f.now_demand
  | through => exact f.now_demand
  | chunk => exact f.now_issueNext
  | failure => rfl

end Fetcher

namespace Pipeline

variable {p q : Pipeline}

theorem now_of_react {next : Option (Except QueryError Chunk)} {b : NextBatch}
    (h : p.react next = .ok (b, q)) : q.fetcher.now = p.fetcher.now := by
  match next with
  | none =>
    obtain ⟨-, rfl⟩ := Prod.mk.inj (Except.ok.inj h)
    rfl
  | some (.error e) =>
    obtain ⟨-, rfl⟩ := Prod.mk.inj (Except.ok.inj h)
    rfl
  | some (.ok chunk) =>
    cases he : p.evaluator.evaluate chunk with
    | error fault => simp [react, he, bind, Except.bind] at h
    | ok result =>
      obtain ⟨result, after⟩ := result
      cases result with
      | error e =>
        simp only [react, he, bind, Except.bind, pure, Except.pure, Except.ok.injEq, Prod.mk.injEq] at h
        rw [← h.2]
        rfl
      | ok batch =>
        simp only [react, he, bind, Except.bind, pure, Except.pure, Except.ok.injEq, Prod.mk.injEq] at h
        rw [← h.2]

/-- What can be had without waiting takes no time. -/
theorem now_of_poll {result : Poll NextBatch} (sound : p.Sound) (h : p.poll = .ok (result, q)) :
    q.fetcher.now = p.fetcher.now := by
  have hpolled := Fetcher.now_of_polled (Fetcher.poll_cases sound.fetcher)
  unfold poll at h
  split at h
  next =>
    obtain ⟨-, rfl⟩ := Prod.mk.inj (Except.ok.inj h)
    rfl
  next =>
    generalize p.fetcher.poll = polled at h hpolled
    obtain ⟨next, f⟩ := polled
    cases next with
    | pending =>
      obtain ⟨-, rfl⟩ := Prod.mk.inj (Except.ok.inj h)
      exact hpolled
    | ready next =>
      simp only [bind, Except.bind] at h
      cases hr : react ⟨f, p.evaluator.awaitChunk⟩ next with
      | error fault => simp [hr] at h
      | ok result =>
        obtain ⟨batch, r⟩ := result
        simp only [hr, pure, Except.pure, Except.ok.injEq, Prod.mk.injEq] at h
        obtain ⟨-, rfl⟩ := h
        exact (now_of_react hr).trans hpolled

theorem latest_of_poll {next : NextBatch} (sound : p.Sound) (h : p.poll = .ok (.ready next, q)) :
    q.fetcher.latest ≤ p.fetcher.latest := by
  have hnow := now_of_poll sound h
  have hands := hands_of_poll sound h
  by_cases hbatch : ∃ b, next = some (.ok b)
  · obtain ⟨b, rfl⟩ := hbatch
    have hcases := poll_cases sound
    rw [h] at hcases
    cases hcases with
    | batch settled => exact Nat.le_of_eq (Fetcher.latest_issueNext settled)
  · have hspent := hands.sound.fetcher.spent (hands.finished (not_exists.mp hbatch))
    rw [Fetcher.latest_of_spent hspent, hnow]
    exact p.fetcher.now_le_latest

end Pipeline

namespace Execution

variable {x y : Execution}

/-- By when all windows that are left are over if the consumer does not sleep. -/
def latest (x : Execution) : Nat := x.pipeline.fetcher.latest

theorem pipeline_react (x : Execution) (next : NextBatch) : (x.react next).2.pipeline = x.pipeline := by
  have hreacted := x.react_cases next
  generalize x.react next = r at hreacted
  cases hreacted <;> rfl

/-- A turn waits no longer than for the answer to the request that is under way. -/
theorem latest_of_waited {p : Pipeline} (h : x.Waited p) (sound : x.pipeline.Sound) :
    p.fetcher.latest ≤ x.latest := by
  have hdemand {q : Pipeline} (polled : x.pipeline.poll = .ok (.pending, q)) : q.fetcher.latest = x.latest := by
    obtain ⟨hq, -⟩ := Pipeline.demand_of_pending sound polled
    rw [hq, Fetcher.latest_demand, latest]
  cases h with
  | none => exact Nat.le_refl _
  | idle polled => exact Nat.le_of_eq (hdemand polled)
  | @answer q w due o polled early running soon =>
    have hwait : q.fetcher.start.waitForTask.latest = q.fetcher.start.latest :=
      Fetcher.latest_waitForTask running
    have hstart := q.fetcher.latest_start
    have hq := hdemand polled
    simp only
    omega
  | @pause q w due o polled early running late =>
    have hearly : q.fetcher.start.now < x.nextBeat := by rwa [q.fetcher.now_start]
    have hwait := Fetcher.latest_waitUntil running hearly late
    have hstart := q.fetcher.latest_start
    have hq := hdemand polled
    simp only
    omega

theorem latest_of_turn {t : Turn} (sound : x.Sound) (h : x.turn = .ok (t, y)) : y.latest ≤ x.latest := by
  cases phase : x.phase with
  | finished =>
    obtain ⟨-, rfl⟩ : Turn.ended = t ∧ x = y := by simpa [turn, phase] using h
    exact Nat.le_refl _
  | closing =>
    simp only [turn, phase, Except.ok.injEq, Prod.mk.injEq] at h
    obtain ⟨-, rfl⟩ := h
    exact Nat.le_refl _
  | streaming =>
    have hstreamed := streamed_of_turn sound.pipeline phase
    rw [h] at hstreamed
    cases hstreamed with
    | beat waited reached result =>
      obtain ⟨-, rfl⟩ := Prod.mk.inj result
      exact latest_of_waited waited sound.pipeline
    | @handed p q next n _ waited polled result =>
      have hsound := (waited.waits sound.pipeline).sound sound.pipeline
      have hpipeline := pipeline_react { x with pipeline := q, choices := n } next
      rw [result] at hpipeline
      have hy : y.latest = q.fetcher.latest := congrArg (·.fetcher.latest) hpipeline
      have hpoll := Pipeline.latest_of_poll hsound polled
      have hwaited := latest_of_waited waited sound.pipeline
      omega

theorem Silently.latest (h : Silently x y) (sound : x.Sound) : y.latest ≤ x.latest := by
  induction h with
  | refl => exact Nat.le_refl _
  | turn first _ ih =>
    have hrest := ih (advances_of_turn sound first).sound
    exact Nat.le_trans hrest (latest_of_turn sound first)

theorem latest_of_pull {e : Option StreamEvent} (sound : x.Sound) (h : x.pull = .ok (e, y)) :
    y.latest ≤ x.latest := by
  have hcases := pull_cases sound
  rw [h] at hcases
  cases hcases with
  | past => exact Nat.le_refl _
  | event quiet turn =>
    have hturn := latest_of_turn (quiet.advances sound).sound turn
    exact Nat.le_trans hturn (quiet.latest sound)
  | @ended y quiet _ =>
    have hdrop : y.drop.latest = y.now := Fetcher.latest_of_spent y.pipeline.fetcher.spent_cancel
    have hquiet := quiet.latest sound
    exact hdrop ▸ Nat.le_trans y.pipeline.fetcher.now_le_latest hquiet

/-- Who does not sleep is told everything by then, the end included. -/
theorem told_by_latest (sound : x.Sound) (n : Nat) {t : Nat} {e : Option StreamEvent}
    (told : (t, e) ∈ (x.follow (List.replicate n .pull)).told) : t ≤ x.latest := by
  induction n generalizing x with
  | zero => simp [follow] at told
  | succ n ih =>
    cases hp : x.pull with
    | error fault => simp [List.replicate_succ, follow, hp] at told
    | ok result =>
      obtain ⟨first, y⟩ := result
      have hpull := latest_of_pull sound hp
      simp only [List.replicate_succ, follow, hp, List.mem_cons, Prod.mk.injEq] at told
      rcases told with ⟨rfl, -⟩ | told
      · exact Nat.le_trans y.pipeline.fetcher.now_le_latest hpull
      · exact Nat.le_trans (ih (advances_of_pull sound hp).sound told) hpull

/-- Who keeps pulling without being told the end is told an event each time, if no window breaks off. -/
theorem length_events_of_open (sound : x.Sound)
    (whole : ∀ s ∈ x.pipeline.course, ∃ result, s.result = .ok result) {n : Nat}
    (open_ : ¬(x.follow (List.replicate n .pull)).Drained) :
    (x.follow (List.replicate n .pull)).events.length = n := by
  induction n generalizing x with
  | zero => rfl
  | succ n ih =>
    cases hp : x.pull with
    | error fault =>
      obtain ⟨-, -, w, hw⟩ := future_of_broken sound hp
      obtain ⟨_, hresult⟩ := whole _ hw
      cases hresult
    | ok result =>
      obtain ⟨e, y⟩ := result
      have hadv := advances_of_pull sound hp
      simp only [List.replicate_succ, follow, hp] at open_ ⊢
      cases e with
      | none => exact absurd ⟨y.now, List.mem_cons_self ..⟩ open_
      | some e =>
        have hopen : ¬(y.follow (List.replicate n .pull)).Drained := by
          rintro ⟨t, ht⟩
          exact open_ ⟨t, List.mem_cons_of_mem _ ht⟩
        have hrest := ih hadv.sound (fun s hs => whole s (hadv.course.subset hs)) hopen
        simpa [Watch.events] using hrest

end Execution

namespace Watch

theorem length_beats (w : Watch) : w.beats.length = w.events.countP StreamEvent.isInfo := by
  rw [beats, List.length_map, ← List.countP_eq_length_filter, events, List.countP_filterMap]
  refine List.countP_congr ?_
  rintro ⟨t, e⟩ -
  cases e <;> simp

theorem countP_info (w : Watch) : w.events.countP (·.kind = "info") = w.beats.length := by
  rw [w.length_beats]
  refine List.countP_congr fun e _ => ?_
  cases e <;> simp [StreamEvent.kind, StreamEvent.isInfo]

theorem mem_beats {w : Watch} {t : Nat} (h : t ∈ w.beats) : ∃ e, (t, e) ∈ w.told := by
  obtain ⟨⟨t, e⟩, hmem, rfl⟩ := List.mem_map.mp h
  exact ⟨e, (List.mem_filter.mp hmem).1⟩

theorem length_events (w : Watch) : w.events.length = w.beats.length + w.results.length := by
  rw [w.length_beats, results, ← List.countP_eq_length_filter]
  simpa using w.events.length_eq_countP_add_countP StreamEvent.isInfo

theorem countP_results (w : Watch) {kind : String} (h : kind ≠ "info") :
    w.events.countP (·.kind = kind) = w.results.countP (·.kind = kind) := by
  rw [results, List.countP_filter]
  refine List.countP_congr fun e _ => ?_
  cases e <;> simp [StreamEvent.kind, StreamEvent.isInfo, Ne.symm h]

end Watch

theorem length_courseOf_le (line : List (Window × Except QueryError Chunk)) (e : Evaluator) :
    (courseOf line e).length ≤ line.length := by
  induction line generalizing e with
  | nil => exact Nat.le_refl _
  | cons first rest ih =>
    obtain ⟨w, fetched⟩ := first
    cases fetched with
    | error failure => simp [courseOf]
    | ok c =>
      rw [courseOf]
      split
      · simp
      · simp
      · simpa using ih _

/-- A course is told by at most one event for each window, and then by the close. -/
theorem eventsOf_le (course : List CourseStep) :
    (eventsOf course).countP (·.kind = "data") ≤ course.length ∧
      (eventsOf course).countP (·.kind = "error") ≤ 1 ∧ (eventsOf course).countP (·.kind = "close") ≤ 1 ∧
      (eventsOf course).length ≤ course.length + 1 := by
  induction course with
  | nil => simp [eventsOf, StreamEvent.kind]
  | cons s course ih =>
    obtain ⟨w, fault | e | b⟩ := s
    · simp [eventsOf]
    · simp [eventsOf, StreamEvent.kind]
    · rw [eventsOf]
      split
      · simp only [List.length_cons]
        omega
      · have hkind : (StreamEvent.data b.results).kind = "data" := rfl
        simp [hkind]
        omega

section

variable {plan : Plan} {windows : List Window} {backend : Backend} {options : StreamOptions}
  {lead : Nat → Lead}

theorem told_within_timeouts
    (started : Started plan windows backend options (plan.begun windows backend options lead)) (n : Nat)
    {t : Nat} {e : Option StreamEvent}
    (told : (t, e) ∈ ((plan.begun windows backend options lead).follow (List.replicate n .pull)).told) :
    t ≤ windows.length * options.timeout := by
  have hlatest : (plan.begun windows backend options lead).latest = windows.length * options.timeout := by
    simp [Execution.latest, Fetcher.latest, Plan.begun, Fetcher.create, Fetcher.horizon, Fetcher.due?,
      Fetcher.length_line, Fetcher.asked]
  rw [← hlatest]
  exact Execution.told_by_latest started.sound n told

/-- The last of the beats comes before the end, and those before it are an interval apart. -/
theorem beats_within_timeouts
    (started : Started plan windows backend options (plan.begun windows backend options lead)) (n : Nat) :
    ((plan.begun windows backend options lead).follow (List.replicate n .pull)).beats.length ≤
      windows.length * options.timeout / options.heartbeat + 1 := by
  refine Beats.length_le (Execution.beats_of_follow started.sound _) started.beating fun t ht => ?_
  obtain ⟨e, he⟩ := Watch.mem_beats ht
  exact told_within_timeouts started n he

theorem length_courseOver_le (plan : Plan) (windows : List Window) (backend : Backend)
    (options : StreamOptions) : (plan.courseOver windows backend options).length ≤ windows.length := by
  have hcourse := length_courseOf_le ((plan.source backend options).fetches 0 windows)
    (.ofPlan plan.expressions)
  rwa [Source.length_fetches] at hcourse

theorem drained_of_pulls
    (started : Started plan windows backend options (plan.begun windows backend options lead))
    (whole : ∀ s ∈ plan.courseOver windows backend options, ∃ result, s.result = .ok result) {n : Nat}
    (enough : windows.length + windows.length * options.timeout / options.heartbeat + 3 ≤ n) :
    ((plan.begun windows backend options lead).follow (List.replicate n .pull)).Drained := by
  by_cases hopen : ((plan.begun windows backend options lead).follow (List.replicate n .pull)).Drained
  · exact hopen
  · have hevents := Execution.length_events_of_open started.sound (started.course ▸ whole) hopen
    have hresults := (Execution.results_prefix started.sound (List.replicate n .pull)).length_le
    have hbeats := beats_within_timeouts started n
    have hcourse := length_courseOver_le plan windows backend options
    obtain ⟨-, -, -, hlength⟩ := eventsOf_le (plan.courseOver windows backend options)
    rw [Watch.length_events] at hevents
    rw [started.future] at hresults
    omega

end

/-- Who pulls without a pause is told the end within the timeouts of all windows, after no more than one event
for each window, an error, a close and a beat for each interval of that time. -/
theorem drained_within_timeouts {plan : Plan} {backend : Backend} {options : StreamOptions}
    {lead : Nat → Lead} {x : Execution} {windows : List Window}
    (hx : execute plan backend options lead = .ok (.ok x))
    (cut : partition plan.step plan.start plan.stop options.multiplier = .ok windows) (n : Nat) :
    (∀ t e, (t, e) ∈ (x.follow (List.replicate n .pull)).told → t ≤ windows.length * options.timeout) ∧
    (x.follow (List.replicate n .pull)).events.countP (·.kind = "data") ≤ windows.length ∧
    (x.follow (List.replicate n .pull)).events.countP (·.kind = "error") ≤ 1 ∧
    (x.follow (List.replicate n .pull)).events.countP (·.kind = "close") ≤ 1 ∧
    (x.follow (List.replicate n .pull)).events.countP (·.kind = "info") ≤
      windows.length * options.timeout / options.heartbeat + 1 ∧
    ((∀ p ∈ plan.expressions, p.expression.Steady) →
      windows.length + windows.length * options.timeout / options.heartbeat + 3 ≤ n →
      (x.follow (List.replicate n .pull)).Drained) := by
  obtain ⟨_, hcut, beating, rfl⟩ := begun_of_execute hx
  obtain rfl := Except.ok.inj (cut.symm.trans hcut)
  have started := started_begun backend lead cut beating
  have hcourse := length_courseOver_le plan windows backend options
  obtain ⟨hdata, herror, hclose, -⟩ := eventsOf_le (plan.courseOver windows backend options)
  have hresults (kind : String) (h : kind ≠ "info") :
      ((plan.begun windows backend options lead).follow (List.replicate n .pull)).events.countP (·.kind = kind) ≤
        (eventsOf (plan.courseOver windows backend options)).countP (·.kind = kind) := by
    rw [Watch.countP_results _ h, ← started.future]
    exact (Execution.results_prefix started.sound _).sublist.countP_le
  refine ⟨fun t e => told_within_timeouts started n, ?_, ?_, ?_, ?_, fun steady enough => ?_⟩
  · exact Nat.le_trans (hresults "data" (by decide)) (Nat.le_trans hdata hcourse)
  · exact Nat.le_trans (hresults "error" (by decide)) herror
  · exact Nat.le_trans (hresults "close" (by decide)) hclose
  · rw [Watch.countP_info]
    exact beats_within_timeouts started n
  · exact drained_of_pulls started (courseOver_whole cut steady) enough

theorem silent_sample_is_drained_within_timeouts :
    ∃ x, execute .sample .silent .fine (fun _ => .heartbeat) = .ok (.ok x) ∧ ∀ n,
      (∀ t e, (t, e) ∈ (x.follow (List.replicate n .pull)).told → t ≤ 300) ∧
      (x.follow (List.replicate n .pull)).events.countP (·.kind = "info") ≤ 31 ∧
      (36 ≤ n → (x.follow (List.replicate n .pull)).Drained) := by
  obtain ⟨x, hx⟩ : ∃ x, execute .sample .silent .fine (fun _ => .heartbeat) = .ok (.ok x) := ⟨_, rfl⟩
  have steady : (Function.raw.toExpression "cpu").Steady := fun _ _ _ _ => ⟨_, rfl⟩
  refine ⟨x, hx, fun n => ?_⟩
  obtain ⟨told, -, -, -, infos, drained⟩ := drained_within_timeouts hx rfl n
  exact ⟨told, infos, drained (by simpa [Plan.sample] using steady)⟩

end SeriesStream
