import SeriesStream.Proofs.Fetching

namespace SeriesStream

namespace Source

theorem fetches_getElem? (s : Source) (n i : Nat) (ws : List Window) :
    (s.fetches n ws)[i]? = ws[i]?.map fun w => (w, s.fetch (n + i) w) := by
  induction ws generalizing n i with
  | nil => rfl
  | cons w ws ih =>
    cases i with
    | zero => rfl
    | succ i =>
      rw [fetches, List.getElem?_cons_succ, List.getElem?_cons_succ, ih,
        show n + 1 + i = n + (i + 1) by omega]

/-- A chunk holds the very data that the backend answered in time. -/
theorem data_of_fetch {s : Source} {n : Nat} {w : Window} {c : Chunk} (h : s.fetch n w = .ok c) :
    ∃ delay d, s.backend n ⟨s.queries, w⟩ = ⟨some delay, .data d⟩ ∧ delay ≤ s.timeout ∧ c = ⟨w, d⟩ := by
  unfold fetch outcome at h
  generalize s.backend n ⟨s.queries, w⟩ = reply at h
  obtain ⟨delay, answer⟩ := reply
  cases delay with
  | none => cases h
  | some delay =>
    by_cases late : s.timeout < delay
    · simp [Reply.within, late, FetchOutcome.delivered] at h
    · simp only [Reply.within, late, ↓reduceIte] at h
      cases answer with
      | data d => exact ⟨delay, d, rfl, Nat.not_lt.mp late, (Except.ok.inj h).symm⟩
      | refused e => cases h
      | crashed text => cases h

end Source

namespace Fetcher

/-- The windows for which no request was sent yet. -/
def unasked (f : Fetcher) : List Window :=
  match f.inFlight with
  | some (.spawned w) => w :: f.pending
  | _ => f.pending

/-- A fetcher that has handed out these chunks of its windows and has all others still before it. -/
structure Ledger (s : Source) (windows : List Window) (chunks : List Chunk) (f : Fetcher) : Prop where
  sound : f.Sound
  source : f.source = s
  line : chunks.map (fun c => (c.window, .ok c)) ++ f.line = s.fetches 0 windows
  requests : f.requests ++ f.unasked.map (⟨s.queries, ·⟩) = windows.map (⟨s.queries, ·⟩)
  asked : f.requests.length = chunks.length + f.asked

/-- A fetcher that is through: what it still had to do, if anything, was given up. -/
structure Spent (f : Fetcher) : Prop where
  finished : f.finished = true
  pending : f.pending = []
  inFlight : f.inFlight = none

theorem Sound.spent {f : Fetcher} (h : f.Sound) (hf : f.finished = true) : f.Spent :=
  ⟨hf, (h hf).1, (h hf).2⟩

theorem spent_cancel (f : Fetcher) : f.cancel.Spent := ⟨rfl, rfl, rfl⟩

theorem Spent.sound {f : Fetcher} (h : f.Spent) : f.Sound := fun _ => ⟨h.pending, h.inFlight⟩

section

variable {s : Source} {windows : List Window} {chunks : List Chunk} {f g : Fetcher}

theorem ledger_create (backend : Backend) (queries : List BaseQuery) (windows : List Window) (timeout : Nat) :
    Ledger ⟨backend, queries, timeout⟩ windows [] (create backend queries windows timeout) :=
  ⟨by simp [Sound, create], rfl, rfl, rfl, rfl⟩

/-- Waiting leaves the line alone, so that only what was sent has to agree with what counts as asked. -/
theorem Ledger.of_waits (h : Ledger s windows chunks f) (hw : f.Waits g) (source : g.source = f.source)
    (requests : g.requests ++ g.unasked.map (⟨f.queries, ·⟩) = f.requests ++ f.unasked.map (⟨f.queries, ·⟩))
    (asked : g.requests.length + f.asked = f.requests.length + g.asked) : Ledger s windows chunks g where
  sound := hw.sound h.sound
  source := source.trans h.source
  line := by rw [hw.line_eq, h.line]
  requests := by
    have hqueries : f.queries = s.queries := congrArg Source.queries h.source
    rw [← h.requests, ← hqueries, requests]
  asked := by
    have := h.asked
    omega

theorem Ledger.demand (h : Ledger s windows chunks f) : Ledger s windows chunks f.demand := by
  obtain ⟨hd, _⟩ | ⟨_, free, ⟨_, hd⟩ | ⟨w, ws, hp, hd⟩⟩ := f.demand_cases
  · rwa [hd]
  · exact h.of_waits (.demand .refl) (by rw [hd]; rfl) (by rw [hd]; rfl) (by rw [hd]; rfl)
  · refine h.of_waits (.demand .refl) (by rw [hd]; rfl) ?_ ?_
    · simp [hd, unasked, free, hp]
    · simp [hd, Fetcher.asked, free]

theorem Ledger.start (h : Ledger s windows chunks f) : Ledger s windows chunks f.start := by
  rcases f.start_cases with hs | ⟨w, hw⟩
  · rwa [hs]
  · have hs := start_of_spawned hw
    refine h.of_waits (.start .refl) (by rw [hs]; rfl) ?_ ?_
    · simp [hs, unasked, hw]
    · simp [hs, Fetcher.asked, hw]

theorem Ledger.settle (h : Ledger s windows chunks f) : Ledger s windows chunks f.settle := by
  rcases f.settle_cases with hs | ⟨w, due, o, n, t, hw, hs⟩
  · rwa [hs]
  · refine h.of_waits (.settle .refl) (by rw [hs]; rfl) ?_ ?_
    · simp [hs, unasked, hw]
    · simp [hs, Fetcher.asked, hw]

/-- Waiting keeps the ledger, whether or not requests are sent meanwhile. -/
theorem Ledger.waits (h : Ledger s windows chunks f) (hw : f.Waits g) : Ledger s windows chunks g := by
  induction hw with
  | refl => exact h
  | demand _ ih => exact ih.demand
  | start _ ih => exact ih.start
  | settle _ ih => exact ih.settle
  | clock _ t ih => exact ⟨ih.sound, ih.source, ih.line, ih.requests, ih.asked⟩

theorem window_of_delivered {w : Window} {o : FetchOutcome} {c : Chunk} {timeout : Nat}
    (h : o.delivered w timeout = .ok c) : c.window = w := by
  cases o with
  | data d =>
    obtain rfl := Except.ok.inj h
    rfl
  | refused e => cases h
  | crashed text => cases h
  | late => cases h

/-- A chunk that is handed out is entered, and the request after it is spawned but not sent. -/
theorem Ledger.chunk {w : Window} {o : FetchOutcome} {c : Chunk} (h : Ledger s windows chunks f)
    (settled : f.inFlight = some (.settled w o)) (delivered : o.delivered w f.timeout = .ok c) :
    Ledger s windows (chunks ++ [c]) f.issueNext := by
  have hrunning : f.finished = false := by
    rw [Bool.eq_false_iff]
    exact fun hf => absurd (h.sound hf).2 (by simp [settled])
  have hline := h.line
  rw [line_of_settled settled, delivered, ← line_issueNext] at hline
  have hasked := h.asked
  have hunasked : f.issueNext.unasked = f.unasked := by
    unfold issueNext
    split
    next hp => simp [unasked, settled, hp]
    next w ws hp => simp [unasked, settled, hp]
  have hsent : f.issueNext.requests = f.requests := by
    unfold issueNext
    split <;> rfl
  refine ⟨fun hf => ?_, ?_, ?_, ?_, ?_⟩
  · rw [finished_issueNext, hrunning] at hf
    cases hf
  · rw [← h.source]
    unfold issueNext
    split <;> rfl
  · simpa [window_of_delivered delivered] using hline
  · rw [hsent, hunasked]
    exact h.requests
  · rw [hsent, asked_issueNext, List.length_append, List.length_singleton, Nat.add_zero, hasked]
    simp [Fetcher.asked, settled]

theorem Ledger.requests_prefix (h : Ledger s windows chunks f) :
    f.requests <+: windows.map (⟨s.queries, ·⟩) :=
  ⟨_, h.requests⟩

/-- The backend has at most one request whose chunk was not handed out yet. -/
theorem Ledger.requests_le (h : Ledger s windows chunks f) : f.requests.length ≤ chunks.length + 1 := by
  have := f.asked_le_one
  have := h.asked
  omega

theorem Ledger.count (h : Ledger s windows chunks f) :
    chunks.length + f.inFlight.toList.length + f.pending.length = windows.length := by
  have hlength := congrArg List.length h.line
  rw [List.length_append, List.length_map, length_line, Source.length_fetches] at hlength
  omega

theorem Ledger.chunk_eq {i : Nat} {c : Chunk} (h : Ledger s windows chunks f) (hc : chunks[i]? = some c) :
    ∃ w delay d, windows[i]? = some w ∧ f.requests[i]? = some ⟨s.queries, w⟩ ∧
      s.backend i ⟨s.queries, w⟩ = ⟨some delay, .data d⟩ ∧ delay ≤ s.timeout ∧ c = ⟨w, d⟩ := by
  have hi : i < chunks.length := (List.getElem?_eq_some_iff.mp hc).1
  have hfront : (s.fetches 0 windows)[i]? = some (c.window, .ok c) := by
    rw [← h.line, List.getElem?_append_left (by simpa using hi), List.getElem?_map, hc]
    rfl
  rw [Source.fetches_getElem?, Nat.zero_add] at hfront
  obtain ⟨w, hw, heq⟩ := Option.map_eq_some_iff.mp hfront
  obtain ⟨delay, d, hreply, inTime, hd⟩ := Source.data_of_fetch (Prod.mk.inj heq).2
  refine ⟨w, delay, d, hw, ?_, hreply, inTime, hd⟩
  have hsent : i < f.requests.length := by
    have := h.asked
    omega
  have hall : (windows.map fun w => FetchRequest.mk s.queries w)[i]? = some ⟨s.queries, w⟩ := by
    rw [List.getElem?_map, hw]
    rfl
  rwa [← h.requests, List.getElem?_append_left hsent] at hall

/-- A fetcher that is through sends no request, however long one waits. -/
theorem Spent.waits (h : f.Spent) (hw : f.Waits g) : g.Spent ∧ g.requests = f.requests := by
  induction hw with
  | refl => exact ⟨h, rfl⟩
  | @demand g _ ih =>
    obtain ⟨hd, _⟩ | ⟨running, _⟩ := g.demand_cases
    · rwa [hd]
    · simp [ih.1.finished] at running
  | @start g _ ih =>
    rwa [start_eq_self (by simp [ih.1.inFlight])]
  | @settle g _ ih =>
    rcases g.settle_cases with hs | ⟨w, due, o, n, t, hw, _⟩
    · rwa [hs]
    · simp [ih.1.inFlight] at hw
  | clock _ t ih => exact ⟨⟨ih.1.finished, ih.1.pending, ih.1.inFlight⟩, ih.2⟩

theorem poll_of_spent (h : f.Spent) : f.poll = (.ready none, f) := by
  have hd : f.demand = f := by simp [Fetcher.demand, h.finished]
  simp [poll, hd, h.finished]

end

end Fetcher

end SeriesStream
