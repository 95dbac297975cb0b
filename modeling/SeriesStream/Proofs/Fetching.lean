import SeriesStream.Fetcher

namespace SeriesStream

/-- The chunk that a fetch comes to, or the failure that is told in its place. -/
def FetchOutcome.delivered (w : Window) (timeout : Nat) : FetchOutcome → Except QueryError Chunk
  | .data d => .ok ⟨w, d⟩
  | .refused e => .error (FetchFailure.refused e).toQueryError
  | .crashed text => .error (FetchFailure.crashed w text).toQueryError
  | .late => .error (FetchFailure.late w timeout).toQueryError

/-- Whom a fetcher asks for what, and how long it waits. -/
structure Source where
  backend : Backend
  queries : List BaseQuery
  timeout : Nat

namespace Source

/-- What the `n`-th request comes to if it asks for `w`. -/
def outcome (s : Source) (n : Nat) (w : Window) : FetchOutcome :=
  ((s.backend n ⟨s.queries, w⟩).within s.timeout).2

/-- The chunk of `w` under the `n`-th request, or the failure that is told in its place. -/
def fetch (s : Source) (n : Nat) (w : Window) : Except QueryError Chunk :=
  (s.outcome n w).delivered w s.timeout

/-- The windows one after the other with what their fetches come to. The `n`-th request is for the
first of them. -/
def fetches (s : Source) : Nat → List Window → List (Window × Except QueryError Chunk)
  | _, [] => []
  | n, w :: rest => (w, s.fetch n w) :: s.fetches (n + 1) rest

theorem length_fetches (s : Source) (n : Nat) (ws : List Window) : (s.fetches n ws).length = ws.length := by
  induction ws generalizing n with
  | nil => rfl
  | cons w ws ih => simp [fetches, ih]

end Source

namespace Fetcher

def source (f : Fetcher) : Source := ⟨f.backend, f.queries, f.timeout⟩

/-- All that is still to be handed out, if no window fails. It is known before any request is sent. -/
def line (f : Fetcher) : List (Window × Except QueryError Chunk) :=
  match f.inFlight with
  | none => f.source.fetches f.requests.length f.pending
  | some (.spawned w) => f.source.fetches f.requests.length (w :: f.pending)
  | some (.running w _ o) =>
    (w, o.delivered w f.timeout) :: f.source.fetches f.requests.length f.pending
  | some (.settled w o) =>
    (w, o.delivered w f.timeout) :: f.source.fetches f.requests.length f.pending

/-- How many windows at the front of the line were already requested. -/
def asked (f : Fetcher) : Nat :=
  match f.inFlight with
  | some (.running ..) | some (.settled ..) => 1
  | _ => 0

/-- A fetcher that is through has nothing left to do. -/
def Sound (f : Fetcher) : Prop := f.finished = true → f.pending = [] ∧ f.inFlight = none

/-- What a fetcher can come to while its consumer takes nothing from it. -/
inductive Waits (f : Fetcher) : Fetcher → Prop
  | refl : Waits f f
  | demand {g : Fetcher} (h : Waits f g) : Waits f g.demand
  | start {g : Fetcher} (h : Waits f g) : Waits f g.start
  | settle {g : Fetcher} (h : Waits f g) : Waits f g.settle
  | clock {g : Fetcher} (h : Waits f g) (t : Nat) : Waits f { g with now := t }

theorem Waits.trans {f g h : Fetcher} (first : f.Waits g) (second : g.Waits h) : f.Waits h := by
  induction second with
  | refl => exact first
  | demand _ ih => exact ih.demand
  | start _ ih => exact ih.start
  | settle _ ih => exact ih.settle
  | clock _ t ih => exact ih.clock t

theorem Waits.waitUntil {f g : Fetcher} (h : f.Waits g) (t : Nat) : f.Waits (g.waitUntil t) := by
  unfold Fetcher.waitUntil
  split
  · exact h
  · refine .clock ?_ t
    split
    · exact h.start.settle
    · exact h.start

theorem Waits.waitForTask {f g : Fetcher} (h : f.Waits g) : f.Waits g.waitForTask :=
  h.start.settle.clock _

/-- A demand does nothing, or finds that all is over, or spawns the fetch of the next window. -/
theorem demand_cases (f : Fetcher) :
    (f.demand = f ∧ (f.finished = true ∨ f.inFlight.isSome = true)) ∨
      f.finished = false ∧ f.inFlight = none ∧
        (f.pending = [] ∧ f.demand = { f with finished := true } ∨
          ∃ w ws, f.pending = w :: ws ∧
            f.demand = { f with inFlight := some (.spawned w), pending := ws }) := by
  unfold demand
  split
  next busy => exact Or.inl ⟨rfl, busy⟩
  next idle =>
    simp only [not_or, Bool.not_eq_true, Option.isSome_eq_false_iff, Option.isNone_iff_eq_none] at idle
    refine Or.inr ⟨idle.1, idle.2, ?_⟩
    cases hp : f.pending with
    | nil => exact Or.inl ⟨rfl, by simp⟩
    | cons w ws => exact Or.inr ⟨w, ws, rfl, by simp [issueNext, hp]⟩

theorem start_eq_self {f : Fetcher} (h : ∀ w, f.inFlight ≠ some (.spawned w)) : f.start = f := by
  unfold start
  split
  next w hw => exact absurd hw (h w)
  next => rfl

theorem start_of_spawned {f : Fetcher} {w : Window} (h : f.inFlight = some (.spawned w)) :
    f.start = { f with
      inFlight := some (.running w
        (f.now + ((f.backend f.requests.length ⟨f.queries, w⟩).within f.timeout).1)
        (f.source.outcome f.requests.length w))
      requests := f.requests ++ [⟨f.queries, w⟩] } := by
  simp [start, h, source, Source.outcome]

/-- A start does nothing unless a task waits for it. -/
theorem start_cases (f : Fetcher) :
    f.start = f ∨ ∃ w, f.inFlight = some (.spawned w) := by
  by_cases h : ∃ w, f.inFlight = some (.spawned w)
  · exact Or.inr h
  · exact Or.inl (start_eq_self fun w hw => h ⟨w, hw⟩)

/-- Settling changes the task and the counts. -/
theorem settle_cases (f : Fetcher) :
    f.settle = f ∨ ∃ w due o fetched failures, f.inFlight = some (.running w due o) ∧
      f.settle = { f with inFlight := some (.settled w o), fetched := fetched, failures := failures } := by
  unfold settle
  split
  next w due o hw =>
    refine Or.inr ⟨w, due, o, ?_⟩
    cases o <;> exact ⟨_, _, hw, rfl⟩
  next => exact Or.inl rfl

theorem settle_of_running {f : Fetcher} {w : Window} {due : Nat} {o : FetchOutcome}
    (h : f.inFlight = some (.running w due o)) : f.settle.inFlight = some (.settled w o) := by
  unfold settle
  simp only [h]
  cases o <;> rfl

theorem demand_of_busy {f : Fetcher} {task : Task} (h : f.inFlight = some task) : f.demand = f := by
  simp [demand, h]

/-- A task that was spawned runs as soon as it is started, and one that runs goes on. -/
theorem running_start {f : Fetcher} {w : Window}
    (h : f.inFlight = some (.spawned w) ∨ ∃ due o, f.inFlight = some (.running w due o)) :
    ∃ due o, f.start.inFlight = some (.running w due o) := by
  rcases h with hw | ⟨due, o, hw⟩
  · exact ⟨_, _, by rw [start_of_spawned hw]⟩
  · exact ⟨due, o, by rw [start_eq_self (by simp [hw]), hw]⟩

theorem waitForTask_of_running {f : Fetcher} {w : Window} {due : Nat} {o : FetchOutcome}
    (h : f.inFlight = some (.running w due o)) : f.waitForTask.inFlight = some (.settled w o) := by
  have hstart : f.start = f := start_eq_self (by simp [h])
  simp only [waitForTask, hstart]
  exact settle_of_running h

theorem line_demand (f : Fetcher) : f.demand.line = f.line := by
  obtain ⟨h, _⟩ | ⟨_, free, ⟨rest, h⟩ | ⟨w, ws, rest, h⟩⟩ := f.demand_cases
  · rw [h]
  · rw [h]
    rfl
  · rw [h]
    simp [line, source, free, rest]

theorem line_start (f : Fetcher) : f.start.line = f.line := by
  rcases f.start_cases with h | ⟨w, hw⟩
  · rw [h]
  · rw [start_of_spawned hw]
    simp [line, hw, source, Source.fetches, Source.fetch, Source.outcome]

theorem line_settle (f : Fetcher) : f.settle.line = f.line := by
  rcases f.settle_cases with h | ⟨w, due, o, n, t, hw, h⟩
  · rw [h]
  · rw [h]
    simp [line, hw, source]

/-- Waiting changes nothing about what will be handed out. -/
theorem Waits.line_eq {f g : Fetcher} (h : f.Waits g) : g.line = f.line := by
  induction h with
  | refl => rfl
  | demand _ ih => rw [line_demand, ih]
  | start _ ih => rw [line_start, ih]
  | settle _ ih => rw [line_settle, ih]
  | clock _ _ ih => exact ih

theorem Waits.sound {f g : Fetcher} (h : f.Waits g) (hf : f.Sound) : g.Sound := by
  induction h with
  | refl => exact hf
  | @demand g _ ih =>
    obtain ⟨h, _⟩ | ⟨running, free, ⟨rest, h⟩ | ⟨w, ws, rest, h⟩⟩ := g.demand_cases
    · rwa [h]
    · rw [h]
      exact fun _ => ⟨rest, free⟩
    · rw [h]
      exact fun hk => absurd hk (by simp [running])
  | @start g _ ih =>
    rcases g.start_cases with h | ⟨w, hw⟩
    · rwa [h]
    · rw [start_of_spawned hw]
      exact fun hk => absurd (ih hk).2 (by simp [hw])
  | @settle g _ ih =>
    rcases g.settle_cases with h | ⟨w, due, o, n, t, hw, h⟩
    · rwa [h]
    · rw [h]
      exact fun hk => absurd (ih hk).2 (by simp [hw])
  | clock _ _ ih => exact ih

theorem Waits.finished {f g : Fetcher} (h : f.Waits g) (hf : f.finished = true) :
    g.finished = true := by
  induction h with
  | refl => exact hf
  | @demand g _ ih =>
    obtain ⟨h, _⟩ | ⟨running, _⟩ := g.demand_cases
    · rwa [h]
    · simp [running] at ih
  | @start g _ ih =>
    rcases g.start_cases with h | ⟨w, hw⟩
    · rwa [h]
    · rwa [start_of_spawned hw]
  | @settle g _ ih => rcases g.settle_cases with h | ⟨w, due, o, n, t, _, h⟩ <;> rwa [h]
  | clock _ _ ih => exact ih

/-- What asking for the next chunk without waiting can come to. -/
inductive Polled (f : Fetcher) : Poll (Option (Except QueryError Chunk)) × Fetcher → Prop
  | pending (running : f.demand.finished = false) (busy : ∃ w, f.demand.inFlight = some (.spawned w) ∨
      ∃ due o, f.demand.inFlight = some (.running w due o)) : Polled f (.pending, f.demand)
  | through (line : f.line = []) (finished : f.demand.finished = true) :
      Polled f (.ready none, f.demand)
  | chunk {w : Window} {o : FetchOutcome} {c : Chunk} (settled : f.inFlight = some (.settled w o))
      (delivered : o.delivered w f.timeout = .ok c) :
      Polled f (.ready (some (.ok c)), f.issueNext)
  | failure {w : Window} {o : FetchOutcome} {e : QueryError}
      (settled : f.inFlight = some (.settled w o)) (delivered : o.delivered w f.timeout = .error e) :
      Polled f (.ready (some (.error e)), f.cancel)

theorem Sound.line_eq_nil {f : Fetcher} (h : f.Sound) (hf : f.finished = true) : f.line = [] := by
  simp [line, h hf, Source.fetches]

theorem inFlight_of_demand {f : Fetcher} (running : f.demand.finished = false) :
    f.demand = f ∧ f.inFlight.isSome = true ∨ ∃ w, f.demand.inFlight = some (.spawned w) := by
  obtain ⟨h, hf | hf⟩ | ⟨_, _, ⟨_, h⟩ | ⟨w, ws, _, h⟩⟩ := f.demand_cases
  · rw [h, hf] at running
    simp at running
  · exact Or.inl ⟨h, hf⟩
  · rw [h] at running
    simp at running
  · exact Or.inr ⟨w, by rw [h]⟩

theorem poll_cases {f : Fetcher} (sound : f.Sound) : f.Polled f.poll := by
  by_cases hf : f.demand.finished = true
  · have hline : f.demand.line = [] := (Waits.refl.demand.sound sound).line_eq_nil hf
    rw [line_demand] at hline
    simpa [poll, hf] using Polled.through hline hf
  have running : f.demand.finished = false := by simpa using hf
  rcases inFlight_of_demand running with ⟨hd, busy⟩ | ⟨w, hw⟩
  · obtain ⟨task, ht⟩ := Option.isSome_iff_exists.mp busy
    have hrun : f.finished = false := hd ▸ running
    cases task with
    | spawned w => simpa [poll, hd, hrun, ht] using Polled.pending running ⟨w, Or.inl (by rw [hd, ht])⟩
    | running w due o =>
      simpa [poll, hd, hrun, ht] using Polled.pending running ⟨w, Or.inr ⟨due, o, by rw [hd, ht]⟩⟩
    | settled w o =>
      cases o with
      | data d => simpa [poll, hd, hrun, ht] using Polled.chunk ht rfl
      | refused e => simpa [poll, hd, hrun, ht] using Polled.failure ht rfl
      | crashed text => simpa [poll, hd, hrun, ht] using Polled.failure ht rfl
      | late => simpa [poll, hd, hrun, ht] using Polled.failure ht rfl
  · simpa [poll, running, hw] using Polled.pending running ⟨w, Or.inl hw⟩

theorem length_line (f : Fetcher) :
    f.line.length = f.pending.length + f.inFlight.toList.length := by
  unfold line
  cases f.inFlight with
  | none => simp [Source.length_fetches]
  | some task => cases task <;> simp [Source.length_fetches]

theorem asked_le_one (f : Fetcher) : f.asked ≤ 1 := by
  unfold asked
  split <;> simp

theorem line_of_settled {f : Fetcher} {w : Window} {o : FetchOutcome}
    (h : f.inFlight = some (.settled w o)) :
    f.line = (w, o.delivered w f.timeout) :: f.source.fetches f.requests.length f.pending := by
  simp [line, h]

theorem line_issueNext (f : Fetcher) :
    f.issueNext.line = f.source.fetches f.requests.length f.pending := by
  unfold issueNext
  split
  next h => simp [line, source, h]
  next w ws h => simp [line, source, h]

theorem finished_issueNext (f : Fetcher) : f.issueNext.finished = f.finished := by
  unfold issueNext
  split <;> rfl

theorem asked_issueNext (f : Fetcher) : f.issueNext.asked = 0 := by
  unfold issueNext
  split <;> rfl

theorem cancel_issueNext (f : Fetcher) : f.issueNext.cancel = f.cancel := by
  unfold issueNext
  split <;> rfl

theorem line_cancel (f : Fetcher) : f.cancel.line = [] := by
  simp [line, cancel, Source.fetches]

end Fetcher

end SeriesStream
