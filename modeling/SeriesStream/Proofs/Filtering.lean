import SeriesStream.Plan
import SeriesStream.Proofs.Evaluation
import SeriesStream.Proofs.Slots

namespace SeriesStream

/-- The result has a number on the grid of its window. -/
def WindowSeries.Informative (r : WindowSeries) : Prop :=
  TimeSeries.Informative ⟨r.tags, r.values⟩ r.window

instance (r : WindowSeries) : Decidable r.Informative :=
  inferInstanceAs (Decidable (TimeSeries.Informative ⟨r.tags, r.values⟩ r.window))

section

variable {w : Window}

theorem keepInformative_eq (hstart : Instant.Shown w.start) (hstop : Instant.Shown w.stop)
    (hstep : Instant.Shown w.step) (hpos : 0 < w.step) (order : w.start ≤ w.stop) (series : List TimeSeries) :
    keepInformative w series =
      .ok (series.filter fun s => s.Informative w, series.countP fun s => ¬s.Informative w) := by
  rw [keepInformative_of_check fun s => isAllNaN_eq s hstart hstop hstep hpos order]
  simp only [decide_not, Bool.not_not]

/-- Only a list without any series is filtered on a window that is out of order. -/
theorem bounds_of_keepInformative {series : List TimeSeries} {kept : List TimeSeries × Nat}
    (h : keepInformative w series = .ok kept) (hsome : series ≠ []) : w.start ≤ w.stop ∧ 0 < w.step := by
  cases series with
  | nil => exact absurd rfl hsome
  | cons s rest =>
    cases hcheck : s.isAllNaN w.start w.stop w.step with
    | error fault => simp [keepInformative, hcheck, bind, Except.bind] at h
    | ok blank => exact bounds_of_isAllNaN hcheck

theorem kept_of_keepInformative (hstart : Instant.Shown w.start) (hstop : Instant.Shown w.stop)
    (hstep : Instant.Shown w.step) {series kept : List TimeSeries} {filtered : Nat}
    (h : keepInformative w series = .ok (kept, filtered)) :
    kept = series.filter (fun s => s.Informative w) ∧ filtered = series.countP fun s => ¬s.Informative w := by
  by_cases hnone : series = []
  · subst hnone
    obtain ⟨rfl, rfl⟩ := Prod.mk.inj (Except.ok.inj h)
    exact ⟨rfl, rfl⟩
  · obtain ⟨order, hpos⟩ := bounds_of_keepInformative h hnone
    have hkept := (keepInformative_eq hstart hstop hstep hpos order series).symm.trans h
    obtain ⟨rfl, rfl⟩ := Prod.mk.inj (Except.ok.inj hkept)
    exact ⟨rfl, rfl⟩

end

namespace Slot

/-- The series of a slot on a chunk, with the name of its expression. -/
def named (slot : Slot) (c : Chunk) (series : List TimeSeries) : List WindowSeries :=
  series.map fun s => ⟨slot.planned.name, c.window, s.tags, s.values⟩

/-- All slots evaluate the chunk, and these are the series they produce, those of one slot behind those of
the slot before it. -/
inductive Produce (c : Chunk) : List Slot → List WindowSeries → Prop
  | nil : Produce c [] []
  | cons {slot : Slot} {slots : List Slot} {ev : Evaluation} {produced : List WindowSeries}
      (yields : slot.evaluate c = .ok (.ok ev)) (rest : Produce c slots produced) :
      Produce c (slot :: slots) (slot.named c ev.series ++ produced)

theorem filter_named (slot : Slot) (c : Chunk) (series : List TimeSeries) :
    (slot.named c series).filter (fun r => r.Informative) =
      slot.named c (series.filter fun s => s.Informative c.window) := by
  rw [named, List.filter_map]
  rfl

theorem countP_named (slot : Slot) (c : Chunk) (series : List TimeSeries) :
    (slot.named c series).countP (fun r => ¬r.Informative) = series.countP fun s => ¬s.Informative c.window := by
  rw [named, List.countP_map]
  rfl

end Slot

/-- Slots that gave results were run one after the other, each with its series filtered. -/
theorem runSlots_cons_ok {c : Chunk} {slot : Slot} {rest next : List Slot} {results : List WindowSeries}
    {filtered : Nat} (h : runSlots c (slot :: rest) = .ok ⟨next, .ok (results, filtered)⟩) :
    ∃ ev kept left next' more others, slot.evaluate c = .ok (.ok ev) ∧
      keepInformative c.window ev.series = .ok (kept, left) ∧
      runSlots c rest = .ok ⟨next', .ok (more, others)⟩ ∧
      results = slot.named c kept ++ more ∧ filtered = left + others := by
  simp only [runSlots, bind, Except.bind] at h
  cases hslot : slot.planned.expression.evaluate c.window c.data slot.state with
  | error fault => simp [hslot] at h
  | ok result =>
    cases result with
    | error e => simp [hslot, pure, Except.pure] at h
    | ok ev =>
      cases hkept : keepInformative c.window ev.series with
      | error fault => simp [hslot, hkept] at h
      | ok pair =>
        cases hrest : runSlots c rest with
        | error fault => simp [hslot, hkept, hrest] at h
        | ok run =>
          obtain ⟨next', outcome⟩ := run
          cases outcome with
          | error e => simp [hslot, hkept, hrest, pure, Except.pure, Except.map] at h
          | ok out =>
            simp only [hslot, hkept, hrest, pure, Except.pure, Except.map, Except.ok.injEq, SlotsRun.mk.injEq,
              Prod.mk.injEq] at h
            obtain ⟨-, rfl, rfl⟩ := h
            exact ⟨ev, _, _, next', _, _, hslot, hkept, rfl, rfl, rfl⟩

/-- What is left of the series that all slots produce are the informative ones, in order, and the others are
counted. -/
theorem produce_of_runSlots {c : Chunk} (hstart : Instant.Shown c.window.start)
    (hstop : Instant.Shown c.window.stop) (hstep : Instant.Shown c.window.step) {slots next : List Slot}
    {results : List WindowSeries} {filtered : Nat}
    (h : runSlots c slots = .ok ⟨next, .ok (results, filtered)⟩) :
    ∃ produced, Slot.Produce c slots produced ∧ results = produced.filter (fun r => r.Informative) ∧
      filtered = produced.countP fun r => ¬r.Informative := by
  induction slots generalizing next results filtered with
  | nil =>
    simp only [runSlots, Except.ok.injEq, SlotsRun.mk.injEq, Prod.mk.injEq] at h
    obtain ⟨-, rfl, rfl⟩ := h
    exact ⟨[], .nil, rfl, rfl⟩
  | cons slot rest ih =>
    obtain ⟨ev, kept, left, next', more, others, hslot, hkept, hrest, rfl, rfl⟩ := runSlots_cons_ok h
    obtain ⟨produced, hproduced, rfl, rfl⟩ := ih hrest
    obtain ⟨rfl, rfl⟩ := kept_of_keepInformative hstart hstop hstep hkept
    refine ⟨slot.named c ev.series ++ produced, .cons hslot hproduced, ?_, ?_⟩
    · rw [List.filter_append, slot.filter_named]
    · rw [List.countP_append, slot.countP_named]

namespace Evaluator

/-- The check for NaN finds a number exactly where the range has one on its grid. So a batch holds just those
of the produced series that have one on its window, in their order, and the others are counted as left out; an
evaluation that fails counts none. -/
theorem informative_series_are_kept :
    (∀ (s : TimeSeries) (start stop step : Int), Instant.Shown start → Instant.Shown stop →
      Instant.Shown step → 0 < step → start ≤ stop → ∃ blank, s.isAllNaN start stop step = .ok blank ∧
        (blank = false ↔ ∃ e ∈ s.values.entries, start ≤ e.1 ∧ e.1 < stop ∧ step ∣ e.1 ∧ e.2.isNaN = false)) ∧
    ∀ (e : Evaluator) (c : Chunk), Instant.Shown c.window.start → Instant.Shown c.window.stop →
      Instant.Shown c.window.step →
      (∀ b after, e.evaluate c = .ok (.ok b, after) → ∃ produced, Slot.Produce c e.slots produced ∧
        b.window = c.window ∧ b.results = produced.filter (fun r => r.Informative) ∧
        after.filtered = e.filtered + produced.countP fun r => ¬r.Informative) ∧
      ∀ failure after, e.evaluate c = .ok (.error failure, after) → after.filtered = e.filtered := by
  refine ⟨fun s start stop step hstart hstop hstep hpos order => ?_, fun e c hstart hstop hstep => ⟨?_, ?_⟩⟩
  · refine ⟨_, isAllNaN_eq s (w := ⟨start, stop, step⟩) hstart hstop hstep hpos order, ?_⟩
    rw [decide_eq_false_iff_not, Decidable.not_not, TimeSeries.informative_iff]
  · intro b after h
    have hcases := e.evaluate_cases c
    rw [h] at hcases
    cases hcases with
    | batch running next run =>
      obtain ⟨produced, hproduced, hresults, hfiltered⟩ := produce_of_runSlots hstart hstop hstep run
      exact ⟨produced, hproduced, rfl, hresults, congrArg (e.filtered + ·) hfiltered⟩
  · intro failure after h
    have hcases := e.evaluate_cases c
    rw [h] at hcases
    cases hcases with
    | terminal => rfl
    | outOfOrder => rfl
    | failed => rfl

/-- Two hosts, the second without a number on the full seconds. -/
def twoHosts : RawData := OrderedMap.ofList [("cpu",
  [.ofPoints (.ofPairs [("host", "a")]) [(-1500, 2.5), (-1000, 1.5)],
    .ofPoints (.ofPairs [("host", "b")]) [(-1500, 2.5), (0, 0.0 / 0.0)]])]

/-- The load as it is and added up. -/
def loadAndTotal : Evaluator :=
  ofPlan [⟨"load", Function.raw.toExpression "cpu"⟩, ⟨"total", Function.runningSum.toExpression "cpu"⟩]

theorem host_without_numbers_is_left_out :
    (∀ s : TimeSeries, ∃ blank, s.isAllNaN (Instant.latest - 1500) Instant.latest 1000 = .ok blank ∧
      (blank = false ↔ ∃ e ∈ s.values.entries, Instant.latest - 1500 ≤ e.1 ∧ e.1 < Instant.latest ∧
        1000 ∣ e.1 ∧ e.2.isNaN = false)) ∧
    ∃ b after, loadAndTotal.evaluate ⟨⟨-1700, 1000, 1000⟩, twoHosts⟩ = .ok (.ok b, after) ∧
      b.results.map (·.tags) = [.ofPairs [("host", "a")], .ofPairs [("host", "a")]] ∧ after.filtered = 2 ∧
      ∃ produced, Slot.Produce ⟨⟨-1700, 1000, 1000⟩, twoHosts⟩ loadAndTotal.slots produced ∧
        b.results = produced.filter (fun r => r.Informative) ∧
        after.filtered = loadAndTotal.filtered + produced.countP fun r => ¬r.Informative := by
  refine ⟨fun s => informative_series_are_kept.1 s _ _ _ (by decide) (by decide) (by decide) (by decide)
    (by decide), ?_⟩
  obtain ⟨b, after, heval, htags, hcount⟩ : ∃ b after,
      loadAndTotal.evaluate ⟨⟨-1700, 1000, 1000⟩, twoHosts⟩ = .ok (.ok b, after) ∧
        b.results.map (·.tags) = [.ofPairs [("host", "a")], .ofPairs [("host", "a")]] ∧
        after.filtered = 2 := ⟨_, _, rfl, rfl, rfl⟩
  have hkept := informative_series_are_kept.2 loadAndTotal ⟨⟨-1700, 1000, 1000⟩, twoHosts⟩ (by decide) (by decide)
    (by decide)
  obtain ⟨produced, hproduced, -, hresults, hfiltered⟩ := hkept.1 b after heval
  exact ⟨b, after, heval, htags, hcount, produced, hproduced, hresults, hfiltered⟩

end Evaluator

end SeriesStream
