import SeriesStream.Proofs.Harvest

namespace SeriesStream

namespace StreamEvent

def data? : StreamEvent → Option (List WindowSeries)
  | data results => some results
  | _ => none

/-- The events that may be followed by any other. -/
def isPassing : StreamEvent → Bool
  | info _ | data _ => true
  | _ => false

end StreamEvent

/-- Heartbeats and data in any order, perhaps an error, `close`, and from then on the end. -/
def IsTranscript (word : List (Option StreamEvent)) : Prop :=
  ∃ (body failure : List StreamEvent) (ends : Nat), (∀ e ∈ body, e.isPassing = true) ∧
    (failure = [] ∨ ∃ message, failure = [.error message]) ∧
    word = (body ++ failure ++ [StreamEvent.close]).map some ++ List.replicate ends none

theorem IsTranscript.cons {e : StreamEvent} {word : List (Option StreamEvent)} (he : e.isPassing = true)
    (h : IsTranscript word) : IsTranscript (some e :: word) := by
  obtain ⟨body, failure, ends, hbody, hfailure, rfl⟩ := h
  exact ⟨e :: body, failure, ends, List.forall_mem_cons.mpr ⟨he, hbody⟩, hfailure, rfl⟩

namespace Watch

def word (w : Watch) : List (Option StreamEvent) := w.told.map (·.2)

end Watch

namespace Execution

theorem word_of_pull {x y : Execution} {e : Option StreamEvent} (h : x.pull = .ok (e, y))
    (steps : List ConsumerStep) :
    (x.follow (.pull :: steps)).word = e :: (y.follow steps).word := by
  simp [follow, h, Watch.word]

theorem word_of_finished {x : Execution} (sound : x.Sound) (phase : x.phase = .finished)
    (steps : List ConsumerStep) : ∃ n, (x.follow steps).word = List.replicate n none := by
  refine ⟨(x.follow steps).word.length, List.eq_replicate_iff.mpr ⟨rfl, fun e he => ?_⟩⟩
  obtain ⟨told, htold, rfl⟩ := List.mem_map.mp he
  exact (follow_of_finished sound phase steps).2 told htold

theorem word_of_closing {x : Execution} (sound : x.Sound) (phase : x.phase = .closing)
    (steps : List ConsumerStep) :
    ∃ n, (x.follow steps).word <+: some .close :: List.replicate n none := by
  induction steps generalizing x with
  | nil => exact ⟨0, List.nil_prefix⟩
  | cons step steps ih =>
    cases step with
    | sleep d => exact ih (advances_sleep sound d).sound phase
    | pull =>
      cases hp : x.pull with
      | error fault => exact absurd (future_of_broken sound hp).1 (by simp [phase])
      | ok result =>
        obtain ⟨e, y⟩ := result
        have hphase := phase_of_pull sound hp
        cases e with
        | none => simp [phase] at hphase
        | some e =>
          cases e with
          | close =>
            obtain ⟨n, hn⟩ := word_of_finished (advances_of_pull sound hp).sound hphase.2 steps
            have hword := word_of_pull hp steps
            rw [hn] at hword
            exact ⟨n, hword ▸ List.prefix_refl _⟩
          | _ => simp [phase] at hphase

/-- While it streams, an execution tells heartbeats and data until it tells an error or `close`. -/
theorem word_of_streaming {x : Execution} (sound : x.Sound) (phase : x.phase = .streaming)
    (steps : List ConsumerStep) : ∃ word, IsTranscript word ∧ (x.follow steps).word <+: word := by
  have hclose (n : Nat) : IsTranscript (some .close :: List.replicate n none) :=
    ⟨[], [], n, by simp, Or.inl rfl, rfl⟩
  induction steps generalizing x with
  | nil => exact ⟨_, hclose 0, List.nil_prefix⟩
  | cons step steps ih =>
    cases step with
    | sleep d => exact ih (advances_sleep sound d).sound phase
    | pull =>
      cases hp : x.pull with
      | error fault => exact ⟨_, hclose 0, by simp [follow, hp, Watch.word]⟩
      | ok result =>
        obtain ⟨e, y⟩ := result
        have hphase := phase_of_pull sound hp
        have hy := (advances_of_pull sound hp).sound
        rw [word_of_pull hp]
        have hpassing {e : StreamEvent} (he : e.isPassing = true) (hy' : y.phase = .streaming) :
            ∃ word, IsTranscript word ∧ some e :: (y.follow steps).word <+: word := by
          obtain ⟨word, htranscript, hprefix⟩ := ih hy hy'
          exact ⟨_, htranscript.cons he, (List.cons_prefix_cons).mpr ⟨rfl, hprefix⟩⟩
        cases e with
        | none => simp [phase] at hphase
        | some e =>
          cases e with
          | info message => exact hpassing rfl hphase.2
          | data results => exact hpassing rfl hphase.2.1
          | error message =>
            obtain ⟨n, hn⟩ := word_of_closing hy hphase.2 steps
            refine ⟨some (.error message) :: some .close :: List.replicate n none,
              ⟨[], [.error message], n, by simp, Or.inr ⟨message, rfl⟩, rfl⟩, ?_⟩
            exact List.cons_prefix_cons.mpr ⟨rfl, hn⟩
          | close =>
            obtain ⟨n, hn⟩ := word_of_finished hy hphase.2 steps
            exact ⟨_, hclose n, hn ▸ List.prefix_refl _⟩

end Execution

theorem data_of_filter_isInfo (es : List StreamEvent) :
    (es.filter (!·.isInfo)).filterMap StreamEvent.data? = es.filterMap StreamEvent.data? := by
  rw [List.filterMap_filter]
  refine congrArg (fun f => List.filterMap f es) (funext fun e => ?_)
  cases e <;> rfl

theorem data_of_dataOf (batches : List WindowBatch) :
    (dataOf batches).filterMap StreamEvent.data? =
      (batches.filter (!·.results.isEmpty)).map (·.results) := by
  rw [dataOf, List.filterMap_map, ← List.filterMap_eq_map]
  rfl

theorem Source.Yields.results_window {s : Source} {n : Nat} {slots final : List Slot} {ws : List Window}
    {batches : List WindowBatch} (h : s.Yields n slots ws batches final) :
    ∀ batch ∈ batches, ∀ r ∈ batch.results, r.window = batch.window := by
  induction h with
  | nil => simp
  | cons _ _ evaluated _ ih => exact List.forall_mem_cons.mpr ⟨evaluated.window_eq, ih⟩

/-- A course consists of the batches that the first windows yield and ends with an error or `close`. -/
theorem yields_of_courseOver {plan : Plan} {windows : List Window} {backend : Backend} {options : StreamOptions}
    (cut : partition plan.step plan.start plan.stop options.multiplier = .ok windows)
    (steady : ∀ p ∈ plan.expressions, p.expression.Steady) :
    ∃ first batches final ends, first <+: windows ∧
      (plan.source backend options).Yields 0 plan.slots first batches final ∧
      eventsOf (plan.courseOver windows backend options) = dataOf batches ++ ends ∧
      ends.filterMap StreamEvent.data? = [] := by
  rcases courseOver_cases backend cut steady with
    ⟨batches, final, hyield, hcourse⟩ | ⟨before, w, after, batches, final, e, rfl, hyield, _, hcourse⟩
  · refine ⟨windows, batches, final, [.close], List.prefix_refl _, hyield, ?_, rfl⟩
    rw [hcourse, eventsOf_batches]
  · refine ⟨before, batches, final, [.error e.render, .close], List.prefix_append _ _, hyield, ?_, rfl⟩
    rw [hcourse, eventsOf_append]
    rfl

theorem events_of_courseOver {plan : Plan} {windows : List Window} {backend : Backend}
    {options : StreamOptions}
    (cut : partition plan.step plan.start plan.stop options.multiplier = .ok windows)
    (steady : ∀ p ∈ plan.expressions, p.expression.Steady) :
    ∃ batches ends, eventsOf (plan.courseOver windows backend options) = dataOf batches ++ ends ∧
      ends.filterMap StreamEvent.data? = [] ∧ batches.map (·.window) <+: windows ∧
      ∀ batch ∈ batches, ∀ r ∈ batch.results, r.window = batch.window := by
  obtain ⟨first, batches, final, ends, hfirst, hyield, hevents, hends⟩ := yields_of_courseOver cut steady
  exact ⟨batches, ends, hevents, hends, hyield.windows_eq ▸ hfirst, hyield.results_window⟩

/-- The data that was told so far are those of batches, each of one window of the plan, in the order of
their windows. -/
theorem data_in_order {plan : Plan} {windows : List Window} {backend : Backend} {options : StreamOptions}
    {x : Execution} (started : Started plan windows backend options x)
    (steady : ∀ p ∈ plan.expressions, p.expression.Steady) (steps : List ConsumerStep) :
    ∃ batches : List WindowBatch,
      (x.follow steps).events.filterMap StreamEvent.data? = batches.map (·.results) ∧
      (batches.map (·.window)).Sublist windows ∧
      (batches.map (·.window)).Pairwise (fun v w => v.start < w.start) ∧
      ∀ batch ∈ batches, batch.results ≠ [] ∧ ∀ r ∈ batch.results, r.window = batch.window := by
  obtain ⟨batches, ends, hevents, hends, hwindows, hbatches⟩ :=
    events_of_courseOver started.cut steady
  have hprefix := (Execution.results_prefix started.sound steps).filterMap StreamEvent.data?
  rw [Watch.results, data_of_filter_isInfo, started.future, hevents, List.filterMap_append, hends, List.append_nil,
    data_of_dataOf] at hprefix
  obtain ⟨shown, hshown, htold⟩ := List.prefix_map_iff.mp hprefix
  obtain ⟨_, _, _, _, chain, _⟩ := partition_chain started.cut
  have hsublist := ((hshown.sublist.trans List.filter_sublist).map WindowBatch.window).trans hwindows.sublist
  refine ⟨shown, htold, hsublist, chain.starts_rise.sublist hsublist, fun batch hbatch => ?_⟩
  have hmem := List.mem_filter.mp (hshown.subset hbatch)
  exact ⟨by simpa using hmem.2, hbatches batch hmem.1⟩

/-- Whatever the backend does and whenever the consumer pulls, the events are those of a transcript, and
each data event shows one window of the plan, later than those before. -/
theorem events_form_transcript {plan : Plan} {backend : Backend} {options : StreamOptions}
    {lead : Nat → Lead} {x : Execution} (hx : execute plan backend options lead = .ok (.ok x))
    (steady : ∀ p ∈ plan.expressions, p.expression.Steady) (steps : List ConsumerStep) :
    (∃ y, (x.follow steps).final = .ok y) ∧
    (∃ word, IsTranscript word ∧ (x.follow steps).word <+: word) ∧
    ∃ windows, partition plan.step plan.start plan.stop options.multiplier = .ok windows ∧
      ∃ batches : List WindowBatch,
        (x.follow steps).events.filterMap StreamEvent.data? = batches.map (·.results) ∧
        (batches.map (·.window)).Sublist windows ∧
        (batches.map (·.window)).Pairwise (fun v w => v.start < w.start) ∧
        ∀ batch ∈ batches, batch.results ≠ [] ∧ ∀ r ∈ batch.results, r.window = batch.window := by
  obtain ⟨windows, started⟩ := started_of_execute hx
  refine ⟨?_, Execution.word_of_streaming started.sound started.phase steps, windows, started.cut,
    data_in_order started steady steps⟩
  rcases Execution.follow_cases started.sound steps with ⟨y, hy, _⟩ | ⟨fault, w, _, hw, _⟩
  · exact ⟨y, hy⟩
  · rw [started.course] at hw
    obtain ⟨result, hresult⟩ := courseOver_whole started.cut steady _ hw
    cases hresult

theorem flaky_events_form_transcript :
    ∃ x, execute .sample .flaky .fine (fun _ => .heartbeat) = .ok (.ok x) ∧
      ∃ word, IsTranscript word ∧ (x.follow [.pull, .sleep 30, .pull, .pull, .pull]).word <+: word := by
  obtain ⟨x, hx⟩ : ∃ x, execute .sample .flaky .fine (fun _ => .heartbeat) = .ok (.ok x) := ⟨_, rfl⟩
  have steady : (Function.raw.toExpression "cpu").Steady := fun _ _ _ _ => ⟨_, rfl⟩
  exact ⟨x, hx, (events_form_transcript hx (by simpa [Plan.sample] using steady) _).2.1⟩

end SeriesStream
