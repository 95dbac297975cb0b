import SeriesStream.Proofs.Containment
import SeriesStream.Proofs.Lasting

namespace SeriesStream

namespace FetchOutcome

def isData : FetchOutcome → Bool
  | data _ => true
  | _ => false

/-- The reason under which a fetch that came to this is counted as failed, if it is counted so. -/
def reason? : FetchOutcome → Option String
  | refused e => some e.kind.label
  | late => some QueryErrorKind.timeout.label
  | _ => none

theorem isData_of_delivered {o : FetchOutcome} {w : Window} {timeout : Nat} {c : Chunk}
    (h : o.delivered w timeout = .ok c) : o.isData = true := by
  cases o with
  | data d => rfl
  | refused e => cases h
  | crashed text => cases h
  | late => cases h

theorem isData_of_failed {o : FetchOutcome} {w : Window} {timeout : Nat} {e : QueryError}
    (h : o.delivered w timeout = .error e) : o.isData = false := by
  cases o with
  | data d => cases h
  | refused e => rfl
  | crashed text => rfl
  | late => rfl

theorem reasons_of_isData {os : List FetchOutcome} (h : ∀ o ∈ os, o.isData = true) :
    os.filterMap FetchOutcome.reason? = [] := by
  refine List.filterMap_eq_nil_iff.mpr fun o ho => ?_
  have hdata := h o ho
  cases o with
  | data d => rfl
  | refused e => cases hdata
  | crashed text => rfl
  | late => cases hdata

theorem countP_of_lost {os : List FetchOutcome} {o : FetchOutcome} (h : ∀ o ∈ os, o.isData = true)
    (lost : o.isData = false) : (os ++ [o]).countP FetchOutcome.isData = os.length := by
  rw [List.countP_append, List.countP_eq_length.mpr h]
  simp [lost]

theorem reasons_of_lost {os : List FetchOutcome} (o : FetchOutcome) (h : ∀ o ∈ os, o.isData = true) :
    (os ++ [o]).filterMap FetchOutcome.reason? = o.reason?.toList := by
  rw [List.filterMap_append, reasons_of_isData h]
  cases hr : o.reason? <;> simp [hr]

end FetchOutcome

theorem Tally.entries_count (reason : Option String) :
    (reason.toList.foldl Tally.count OrderedMap.empty).entries = reason.toList.map (·, 1) := by
  cases reason <;> rfl

namespace Source

/-- What the requests for these windows come to, the first of them being the `n`-th request. -/
def outcomes (s : Source) : Nat → List Window → List FetchOutcome
  | _, [] => []
  | n, w :: rest => s.outcome n w :: s.outcomes (n + 1) rest

theorem outcomes_append (s : Source) (n : Nat) (ws vs : List Window) :
    s.outcomes n (ws ++ vs) = s.outcomes n ws ++ s.outcomes (n + ws.length) vs := by
  induction ws generalizing n with
  | nil => rfl
  | cons w ws ih =>
    have hn : n + 1 + ws.length = n + (w :: ws).length := by
      rw [List.length_cons]
      omega
    simp [outcomes, ih, hn]

theorem length_outcomes (s : Source) (n : Nat) (ws : List Window) : (s.outcomes n ws).length = ws.length := by
  induction ws generalizing n with
  | nil => rfl
  | cons w ws ih => simp [outcomes, ih]

end Source

namespace Fetcher

/-- What the running task will come to. -/
def underWay (f : Fetcher) : List FetchOutcome :=
  match f.inFlight with
  | some (.running _ _ o) => [o]
  | _ => []

/-- The counts are those of the requests whose tasks are over. -/
structure Counted (s : Source) (f : Fetcher) : Prop where
  source : f.source = s
  counts : ∃ past, s.outcomes 0 (f.requests.map (·.window)) = past ++ f.underWay ∧
    f.fetched = past.countP FetchOutcome.isData ∧
    f.failures = (past.filterMap FetchOutcome.reason?).foldl Tally.count OrderedMap.empty

variable {s : Source} {f g : Fetcher}

/-- What else changes about a fetcher does not matter to its counts. -/
theorem Counted.kept (h : Counted s f) (source : g.source = f.source) (requests : g.requests = f.requests)
    (fetched : g.fetched = f.fetched) (failures : g.failures = f.failures)
    (underWay : g.underWay = f.underWay) : Counted s g := by
  obtain ⟨past, hpast, hfetched, hfailures⟩ := h.counts
  refine ⟨source.trans h.source, past, ?_, fetched.trans hfetched, failures.trans hfailures⟩
  rw [requests, underWay, hpast]

theorem Counted.demand (h : Counted s f) : Counted s f.demand := by
  obtain ⟨hd, _⟩ | ⟨_, free, ⟨_, hd⟩ | ⟨_, _, _, hd⟩⟩ := f.demand_cases
  · rwa [hd]
  · rw [hd]
    exact h.kept rfl rfl rfl rfl rfl
  · rw [hd]
    exact h.kept rfl rfl rfl rfl (by simp [underWay, free])

/-- The request that is sent is under way. -/
theorem Counted.start (h : Counted s f) : Counted s f.start := by
  rcases f.start_cases with hs | ⟨w, hw⟩
  · rwa [hs]
  · obtain ⟨past, hpast, hfetched, hfailures⟩ := h.counts
    have hidle : f.underWay = [] := by simp [underWay, hw]
    rw [start_of_spawned hw]
    refine ⟨h.source, past, ?_, hfetched, hfailures⟩
    rw [hidle, List.append_nil] at hpast
    rw [List.map_append, Source.outcomes_append, hpast, List.length_map, Nat.zero_add, h.source]
    rfl

/-- What was under way is over, and is counted unless it broke off. -/
theorem Counted.settle (h : Counted s f) : Counted s f.settle := by
  obtain ⟨past, hpast, hfetched, hfailures⟩ := h.counts
  unfold Fetcher.settle
  split
  next w due o hw =>
    have hrunning : f.underWay = [o] := by simp [underWay, hw]
    rw [hrunning] at hpast
    cases o with
    | data d =>
      refine ⟨h.source, past ++ [.data d], by simpa [underWay] using hpast, ?_, ?_⟩
      · simp [hfetched, FetchOutcome.isData]
      · simpa [List.filterMap_cons, FetchOutcome.reason?] using hfailures
    | refused e =>
      refine ⟨h.source, past ++ [.refused e], by simpa [underWay] using hpast, ?_, ?_⟩
      · simpa [FetchOutcome.isData] using hfetched
      · simp [hfailures, FetchOutcome.reason?]
    | crashed text =>
      refine ⟨h.source, past ++ [.crashed text], by simpa [underWay] using hpast, ?_, ?_⟩
      · simpa [FetchOutcome.isData] using hfetched
      · simpa [List.filterMap_cons, FetchOutcome.reason?] using hfailures
    | late =>
      refine ⟨h.source, past ++ [.late], by simpa [underWay] using hpast, ?_, ?_⟩
      · simpa [FetchOutcome.isData] using hfetched
      · simp [hfailures, FetchOutcome.reason?]
  next => exact h

theorem Counted.waits (h : Counted s f) (hw : f.Waits g) : Counted s g := by
  induction hw with
  | refl => exact h
  | demand _ ih => exact ih.demand
  | start _ ih => exact ih.start
  | settle _ ih => exact ih.settle
  | clock _ t ih => exact ih.kept rfl rfl rfl rfl rfl

theorem Counted.issueNext {w : Window} {o : FetchOutcome} (h : Counted s f)
    (settled : f.inFlight = some (.settled w o)) : Counted s f.issueNext := by
  have hidle : f.underWay = [] := by simp [underWay, settled]
  unfold Fetcher.issueNext
  split
  next => exact h.kept rfl rfl rfl rfl hidle.symm
  next => exact h.kept rfl rfl rfl rfl hidle.symm

theorem Counted.cancel {w : Window} {o : FetchOutcome} (h : Counted s f)
    (settled : f.inFlight = some (.settled w o)) : Counted s f.cancel := by
  have hidle : f.underWay = [] := by simp [underWay, settled]
  exact h.kept rfl rfl rfl rfl hidle.symm

end Fetcher

theorem Pipeline.lasting_counted (s : Source) : Lasting fun p => p.fetcher.Counted s where
  waits h hw := by
    induction hw with
    | refl => exact h
    | fetcher _ hf ih => exact ih.waits hf
    | await _ ih => exact ih
  handed {p q next} sound h polled := by
    have hcases := poll_cases sound
    rw [polled] at hcases
    cases hcases with
    | through waits => exact h.waits waits
    | failure settled => exact h.cancel settled
    | rejected settled => exact h.cancel settled
    | batch settled => exact h.issueNext settled

/-- A course goes on past a window that was fetched and yields, and ends with any other one. -/
theorem courseOf_fetches_cases (s : Source) (n : Nat) (w : Window) (ws : List Window) (e : Evaluator) :
    (∃ failure, (s.outcome n w).delivered w s.timeout = .error failure ∧
      courseOf (s.fetches n (w :: ws)) e = [⟨w, .ok (.error failure)⟩]) ∨
    (s.outcome n w).isData = true ∧ ((∃ result, courseOf (s.fetches n (w :: ws)) e = [⟨w, result⟩]) ∨
      ∃ (batch : WindowBatch) (after : Evaluator), batch.window = w ∧
        courseOf (s.fetches n (w :: ws)) e = batch.toStep :: courseOf (s.fetches (n + 1) ws) after) := by
  cases hfetch : s.fetch n w with
  | error failure => exact Or.inl ⟨failure, hfetch, by simp [Source.fetches, hfetch, courseOf]⟩
  | ok c =>
    refine Or.inr ⟨FetchOutcome.isData_of_delivered hfetch, ?_⟩
    cases he : e.evaluate c with
    | error fault => exact Or.inl ⟨.error fault, by simp [Source.fetches, hfetch, courseOf, he]⟩
    | ok evaluated =>
      obtain ⟨result, after⟩ := evaluated
      cases result with
      | error failure => exact Or.inl ⟨.ok (.error failure), by simp [Source.fetches, hfetch, courseOf, he]⟩
      | ok batch =>
        have hwindow : batch.window = w :=
          (Evaluator.window_of_batch he).trans (Fetcher.window_of_delivered hfetch)
        refine Or.inr ⟨batch, after, hwindow, ?_⟩
        simp [Source.fetches, hfetch, courseOf, he, WindowBatch.toStep, hwindow]

/-- The windows of a course were all fetched, unless the fetch of its last one failed. -/
theorem outcomes_of_courseOf (s : Source) (n : Nat) (ws : List Window) (e : Evaluator) :
    (∀ o ∈ s.outcomes n ((courseOf (s.fetches n ws) e).map (·.window)), o.isData = true) ∨
      ∃ (batches : List WindowBatch) (w : Window) (failure : QueryError),
        courseOf (s.fetches n ws) e = batches.map WindowBatch.toStep ++ [⟨w, .ok (.error failure)⟩] ∧
        (∀ o ∈ s.outcomes n (batches.map (·.window)), o.isData = true) ∧
        (s.outcome (n + batches.length) w).delivered w s.timeout = .error failure := by
  induction ws generalizing n e with
  | nil => exact Or.inl (by simp [Source.fetches, courseOf, Source.outcomes])
  | cons w ws ih =>
    rcases courseOf_fetches_cases s n w ws e with ⟨failure, hfailed, hcourse⟩ |
      ⟨hdata, ⟨result, hcourse⟩ | ⟨batch, after, hwindow, hcourse⟩⟩
    · exact Or.inr ⟨[], w, failure, hcourse, by simp [Source.outcomes], hfailed⟩
    · refine Or.inl fun o ho => ?_
      rw [hcourse] at ho
      obtain rfl : o = s.outcome n w := by simpa [Source.outcomes] using ho
      exact hdata
    · rcases ih (n + 1) after with hall | ⟨batches, v, failure, hrest, hbefore, hfailed⟩
      · refine Or.inl fun o ho => ?_
        rw [hcourse, List.map_cons, Source.outcomes] at ho
        rcases List.mem_cons.mp ho with rfl | ho
        · simpa [WindowBatch.toStep, hwindow] using hdata
        · exact hall o ho
      · refine Or.inr ⟨batch :: batches, v, failure, ?_, fun o ho => ?_, ?_⟩
        · rw [hcourse, hrest, List.map_cons, List.cons_append]
        · rw [List.map_cons, Source.outcomes, hwindow] at ho
          rcases List.mem_cons.mp ho with rfl | ho
          · exact hdata
          · exact hbefore o ho
        · have hn : n + (batch :: batches).length = n + 1 + batches.length := by
            rw [List.length_cons]
            omega
          rwa [hn]

/-- Who was told the end has counted what all requests came to. -/
theorem counts_of_drained {plan : Plan} {windows : List Window} {backend : Backend} {options : StreamOptions}
    {lead : Nat → Lead}
    (started : Started plan windows backend options (plan.begun windows backend options lead))
    {steps : List ConsumerStep} (drained : ((plan.begun windows backend options lead).follow steps).Drained)
    {y : Execution} (hy : ((plan.begun windows backend options lead).follow steps).final = .ok y) :
    let all := (plan.source backend options).outcomes 0 (y.requests.map (·.window))
    y.metrics.fetched = all.countP FetchOutcome.isData ∧
      y.metrics.failures = (all.filterMap FetchOutcome.reason?).foldl Tally.count OrderedMap.empty := by
  obtain ⟨z, hz, hsound, phase⟩ := Execution.future_of_drained started.sound drained
  obtain rfl : y = z := Except.ok.inj (hy.symm.trans hz)
  have hbegun : (plan.begun windows backend options lead).pipeline.fetcher.Counted
      (plan.source backend options) := ⟨rfl, [], rfl, rfl, rfl⟩
  obtain ⟨-, past, hpast, hfetched, hfailures⟩ :=
    Execution.lasting_of_follow (Pipeline.lasting_counted _) started.sound hbegun hy
  -- at the end no task is running, so that nothing is left to be counted
  have hspent := hsound.pipeline.fetcher.spent (hsound.through (by simp [phase]))
  have hidle : y.pipeline.fetcher.underWay = [] := by simp [Fetcher.underWay, hspent.inFlight]
  rw [hidle, List.append_nil] at hpast
  obtain rfl := hpast
  exact ⟨hfetched, hfailures⟩

/-- In an execution that was told to its end every fetch is counted once, as fetched or under the reason of its
failure, with one exception: a task that crashed is not counted at all. No fetch but the last one fails, and its
failure is the error that is told. -/
theorem fetches_are_counted_unless_they_crash {plan : Plan} {backend : Backend} {options : StreamOptions}
    {lead : Nat → Lead} {x : Execution} (hx : execute plan backend options lead = .ok (.ok x))
    {steps : List ConsumerStep} (drained : (x.follow steps).Drained) :
    ∃ y, (x.follow steps).final = .ok y ∧ y.metrics.fetchObservations = y.metrics.fetched ∧
      ((∀ o ∈ (plan.source backend options).outcomes 0 (y.requests.map (·.window)), o.isData = true) ∧
          y.metrics.fetched = y.requests.length ∧ y.metrics.failures.entries = [] ∨
        ∃ before w o e, y.requests = before ++ [⟨plan.baseQueries, w⟩] ∧
          (plan.source backend options).outcome before.length w = o ∧
          o.delivered w options.timeout = .error e ∧ .error e.render ∈ (x.follow steps).events ∧
          y.metrics.fetched = before.length ∧ y.metrics.failures.entries = o.reason?.toList.map (·, 1)) := by
  obtain ⟨windows, cut, beating, rfl⟩ := begun_of_execute hx
  have started := started_begun backend lead cut beating
  obtain ⟨y, hy, hresults, hrequests⟩ := drained_cases started drained
  obtain ⟨hfetched, hfailures⟩ := counts_of_drained started drained hy
  refine ⟨y, hy, rfl, ?_⟩
  rcases outcomes_of_courseOf (plan.source backend options) 0 windows (.ofPlan plan.expressions) with
    hall | ⟨batches, w, e, hcourse, hbefore, hfailed⟩
  · have hwindows : y.requests.map (·.window) =
        (plan.courseOver windows backend options).map (·.window) := by
      rw [hrequests, List.map_map]
      rfl
    have hdata : ∀ o ∈ (plan.source backend options).outcomes 0 (y.requests.map (·.window)), o.isData = true :=
      fun o ho => hall o (hwindows ▸ ho)
    refine Or.inl ⟨hdata, ?_, ?_⟩
    · rw [hfetched, List.countP_eq_length.mpr hdata, Source.length_outcomes, List.length_map]
    · rw [hfailures, FetchOutcome.reasons_of_isData hdata]
      rfl
  · rw [Plan.courseOver, hcourse] at hresults hrequests
    rw [Nat.zero_add] at hfailed
    have hsplit : y.requests = batches.map (fun b => ⟨plan.baseQueries, b.window⟩) ++ [⟨plan.baseQueries, w⟩] := by
      rw [hrequests, List.map_append, List.map_map]
      rfl
    have hlost := FetchOutcome.isData_of_failed hfailed
    have houtcomes : (plan.source backend options).outcomes 0 (y.requests.map (·.window)) =
        (plan.source backend options).outcomes 0 (batches.map (·.window)) ++
          [(plan.source backend options).outcome batches.length w] := by
      rw [hsplit, List.map_append, List.map_map, Source.outcomes_append, List.length_map, Nat.zero_add]
      rfl
    refine Or.inr ⟨_, w, _, e, hsplit, rfl, ?_, ?_, ?_, ?_⟩
    · rw [List.length_map]
      exact hfailed
    · have htold : .error e.render ∈ eventsOf (batches.map WindowBatch.toStep ++ [⟨w, .ok (.error e)⟩]) := by
        rw [eventsOf_append]
        simp [eventsOf]
      rw [← hresults] at htold
      exact (List.mem_filter.mp htold).1
    · rw [hfetched, houtcomes, FetchOutcome.countP_of_lost hbefore hlost, Source.length_outcomes, List.length_map,
        List.length_map]
    · rw [hfailures, houtcomes, FetchOutcome.reasons_of_lost _ hbefore, List.length_map, Tally.entries_count]

/-- A backend whose tasks all crash after five milliseconds. -/
def Backend.crashing : Backend := fun _ _ => ⟨some 5, .crashed "boom"⟩

theorem refused_fetch_is_counted :
    ∃ x, execute .sample .flaky .fine (fun _ => .heartbeat) = .ok (.ok x) ∧
      (x.follow (List.replicate 9 .pull)).Drained ∧
      ∃ y, (x.follow (List.replicate 9 .pull)).final = .ok y ∧
        y.requests.length = 2 ∧ y.metrics.fetched = 1 ∧ y.metrics.failures.entries = [("fetch_failed", 1)] := by
  obtain ⟨x, y, hx, drained, hy, hrequests⟩ : ∃ x y,
      execute .sample .flaky .fine (fun _ => .heartbeat) = .ok (.ok x) ∧
      (x.follow (List.replicate 9 .pull)).Drained ∧ (x.follow (List.replicate 9 .pull)).final = .ok y ∧
      y.requests = [⟨["cpu"], ⟨0, 1000, 1000⟩⟩, ⟨["cpu"], ⟨1000, 2000, 1000⟩⟩] :=
    ⟨_, _, rfl, ⟨50, List.mem_of_getElem? (i := 8) rfl⟩, rfl, rfl⟩
  obtain ⟨z, hz, -, hcounts⟩ := fetches_are_counted_unless_they_crash hx drained
  obtain rfl := Except.ok.inj (hy.symm.trans hz)
  refine ⟨x, hx, drained, y, hy, by rw [hrequests]; rfl, ?_⟩
  rcases hcounts with ⟨hall, -, -⟩ | ⟨before, w, o, e, hsplit, rfl, -, -, hfetched, hfailures⟩
  · have hrefused := hall (.refused ⟨.fetchFailed, "down"⟩) (by
      rw [hrequests]
      exact List.mem_of_getElem? (i := 1) rfl)
    cases hrefused
  · have hlength := congrArg List.length (hrequests.symm.trans hsplit)
    have hone : before.length = 1 := by simpa using hlength.symm
    rw [hone] at hfetched hfailures
    exact ⟨hfetched, hfailures⟩

/-- The first request crashes and is counted neither as fetched nor as failed. -/
theorem crashed_fetch_is_not_counted :
    ∃ x y, execute .sample .crashing { StreamOptions.fine with heartbeat := 10000 } (fun _ => .heartbeat) =
        .ok (.ok x) ∧
      (x.follow (List.replicate 4 .pull)).Drained ∧ (x.follow (List.replicate 4 .pull)).final = .ok y ∧
      (x.follow (List.replicate 4 .pull)).events.map (·.kind) = ["info", "error", "close"] ∧
      y.requests.length = 1 ∧ y.metrics.fetched = 0 ∧ y.metrics.failures.entries = [] :=
  ⟨_, _, rfl, ⟨5, List.mem_of_getElem? (i := 3) rfl⟩, rfl, rfl, rfl, rfl, rfl⟩

end SeriesStream
