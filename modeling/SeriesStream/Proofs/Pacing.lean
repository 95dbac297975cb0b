import SeriesStream.Proofs.Consumer

namespace SeriesStream

/-- Two executions of one plan that beat at different times, with different texts, for consumers of a
different pace, tell the same results in the same order. -/
theorem pacing_leaves_results {plan : Plan} {backend : Backend} {options : StreamOptions} {interval : Nat}
    {message : String} {lead lead' : Nat → Lead} {x y : Execution}
    (hx : execute plan backend options lead = .ok (.ok x))
    (hy : execute plan backend { options with heartbeat := interval, message := message } lead' =
      .ok (.ok y)) (steps steps' : List ConsumerStep) :
    ((x.follow steps).results <+: (y.follow steps').results ∨
      (y.follow steps').results <+: (x.follow steps).results) ∧
    ((x.follow steps).Drained → (y.follow steps').Drained →
      (x.follow steps).results = (y.follow steps').results) := by
  obtain ⟨windows, started⟩ := started_of_execute hx
  obtain ⟨windows', started'⟩ := started_of_execute hy
  obtain rfl : windows = windows' := Except.ok.inj (started.cut.symm.trans started'.cut)
  have hfuture : y.future = x.future := started'.future.trans started.future.symm
  have hprefix := Execution.results_prefix started.sound steps
  have hprefix' := Execution.results_prefix started'.sound steps'
  rw [hfuture] at hprefix'
  refine ⟨List.prefix_or_prefix_of_prefix hprefix hprefix', fun drained drained' => ?_⟩
  rw [Execution.results_of_drained started.sound drained,
    Execution.results_of_drained started'.sound drained', hfuture]

theorem pacing_leaves_flaky_results :
    ∃ x y, execute .sample .flaky .fine (fun _ => .heartbeat) = .ok (.ok x) ∧
      execute .sample .flaky { StreamOptions.fine with heartbeat := 7, message := "tick" }
        (fun _ => .batch) = .ok (.ok y) ∧
      ((x.follow [.pull, .sleep 500, .pull]).results <+: (y.follow [.sleep 3, .pull, .pull]).results ∨
        (y.follow [.sleep 3, .pull, .pull]).results <+: (x.follow [.pull, .sleep 500, .pull]).results) := by
  obtain ⟨x, hx⟩ : ∃ x, execute .sample .flaky .fine (fun _ => .heartbeat) = .ok (.ok x) := ⟨_, rfl⟩
  obtain ⟨y, hy⟩ : ∃ y, execute .sample .flaky { StreamOptions.fine with heartbeat := 7, message := "tick" }
      (fun _ => .batch) = .ok (.ok y) := ⟨_, rfl⟩
  exact ⟨x, y, hx, hy, (pacing_leaves_results hx hy _ _).1⟩

end SeriesStream
