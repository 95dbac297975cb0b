import SeriesStream.Proofs.Harvest
import SeriesStream.Proofs.Progress

namespace SeriesStream

/-- Who was told the end was told the whole course, and its windows were requested. -/
theorem drained_cases {plan : Plan} {windows : List Window} {backend : Backend} {options : StreamOptions}
    {x : Execution} (started : Started plan windows backend options x) {steps : List ConsumerStep}
    (drained : (x.follow steps).Drained) :
    ∃ y, (x.follow steps).final = .ok y ∧
      (x.follow steps).results = eventsOf (plan.courseOver windows backend options) ∧
      y.requests =
        (plan.courseOver windows backend options).map fun s => ⟨plan.baseQueries, s.window⟩ := by
  obtain ⟨y, hy, hsound, phase⟩ := Execution.future_of_drained started.sound drained
  refine ⟨y, hy, (Execution.results_of_drained started.sound drained).trans started.future, ?_⟩
  rcases Execution.follow_cases started.sound steps with ⟨z, hz, hadv⟩ | ⟨fault, w, hf, _⟩
  · obtain rfl : y = z := Except.ok.inj (hy.symm.trans hz)
    have hcourse : y.pipeline.course = [] :=
      Pipeline.course_eq_nil (hsound.pipeline.fetcher.line_eq_nil (hsound.through (by simp [phase])))
    have hall := hadv.requests.trans started.requests
    simpa [Pipeline.allRequests, hcourse, Execution.requests] using hall
  · simp [hy] at hf

/-- The windows of a plan yield one after the other, up to the first that fails if one does. That
failure is the only error that is told, behind the data of the windows before it, and the window behind
it is never requested. -/
theorem failure_is_contained {plan : Plan} {backend : Backend} {options : StreamOptions}
    {lead : Nat → Lead} {x : Execution} {windows : List Window}
    (started : execute plan backend options lead = .ok (.ok x))
    (cut : partition plan.step plan.start plan.stop options.multiplier = .ok windows)
    (steady : ∀ p ∈ plan.expressions, p.expression.Steady) :
    (∃ pulls, (x.follow (List.replicate pulls .pull)).Drained) ∧
    ((∃ batches final, (plan.source backend options).Yields 0 plan.slots windows batches final) ∨
      ∃ before w after batches final e, windows = before ++ w :: after ∧
        (plan.source backend options).Yields 0 plan.slots before batches final ∧
        (plan.source backend options).Fails before.length final w e) ∧
    ∀ steps, (x.follow steps).Drained → ∃ y, (x.follow steps).final = .ok y ∧
      (∀ batches final, (plan.source backend options).Yields 0 plan.slots windows batches final →
        (x.follow steps).results = dataOf batches ++ [.close] ∧
        y.requests = windows.map fun w => ⟨plan.baseQueries, w⟩) ∧
      ∀ before w after batches final e, windows = before ++ w :: after →
        (plan.source backend options).Yields 0 plan.slots before batches final →
        (plan.source backend options).Fails before.length final w e →
        (x.follow steps).results = dataOf batches ++ [.error e.render, .close] ∧
        y.requests = (before ++ [w]).map fun w => ⟨plan.baseQueries, w⟩ := by
  obtain ⟨_, hstarted⟩ := started_of_execute started
  obtain rfl := Except.ok.inj (cut.symm.trans hstarted.cut)
  obtain ⟨_, _, _, _, chain, _⟩ := partition_chain cut
  refine ⟨?_, ?_, fun steps drained => ?_⟩
  · exact Execution.exists_drained hstarted.sound hstarted.beating
      (hstarted.course ▸ courseOver_whole cut steady)
  · simpa using (plan.source backend options).yields_or_one_fails (n := 0) chain (Plan.steady_slots steady)
  · obtain ⟨y, hy, hresults, hrequests⟩ := drained_cases hstarted drained
    refine ⟨y, hy, fun batches final hyield => ?_, ?_⟩
    · rw [courseOver_of_yields chain hyield] at hresults hrequests
      refine ⟨?_, ?_⟩
      · rw [hresults, eventsOf_batches]
      · rw [hrequests, ← hyield.windows_eq]
        simp [WindowBatch.toStep]
    · rintro before w after batches final e rfl hyield hfails
      rw [courseOver_of_fails chain hyield hfails] at hresults hrequests
      refine ⟨?_, ?_⟩
      · rw [hresults, eventsOf_append]
        rfl
      · rw [hrequests, ← hyield.windows_eq]
        simp [WindowBatch.toStep]

theorem refused_window_is_contained :
    ∃ x, execute .sample .flaky .fine (fun _ => .batch) = .ok (.ok x) ∧
      (∃ pulls, (x.follow (List.replicate pulls .pull)).Drained) ∧
      ∀ steps, (x.follow steps).Drained →
        (x.follow steps).results = [.error "FetchFailed: down", .close] ∧
        ∃ y, (x.follow steps).final = .ok y ∧
          y.requests = [⟨["cpu"], ⟨0, 1000, 1000⟩⟩, ⟨["cpu"], ⟨1000, 2000, 1000⟩⟩] := by
  obtain ⟨x, hx⟩ : ∃ x, execute .sample .flaky .fine (fun _ => .batch) = .ok (.ok x) := ⟨_, rfl⟩
  have steady : (Function.raw.toExpression "cpu").Steady := fun _ _ _ _ => ⟨_, rfl⟩
  obtain ⟨hpulls, -, hall⟩ := failure_is_contained hx rfl (by simpa [Plan.sample] using steady)
  refine ⟨x, hx, hpulls, fun steps drained => ?_⟩
  obtain ⟨y, hy, -, hfails⟩ := hall steps drained
  obtain ⟨hresults, hrequests⟩ := hfails [⟨0, 1000, 1000⟩] ⟨1000, 2000, 1000⟩ [⟨2000, 3000, 1000⟩] _ _ _ rfl
    (.cons (d := OrderedMap.empty) rfl (by decide) (.cons rfl .nil) (.nil _ _)) (.refused rfl (by decide))
  exact ⟨hresults, y, hy, hrequests⟩

end SeriesStream
