import SeriesStream.Expression
import SeriesStream.Proofs.Lookup

namespace SeriesStream

namespace Samples

theorem entries_restrict (s : Samples) {a b c : Int} (hab : a ≤ b) (hbc : b ≤ c) :
    (s.restrict a c).entries = (s.restrict a b).entries ++ (s.restrict b c).entries := by
  have hcut (entries : List (Int × Float)) (ascending : Ascending entries) :
      entries.filter (fun e => decide (a ≤ e.1 ∧ e.1 < c)) =
        entries.filter (fun e => decide (a ≤ e.1 ∧ e.1 < b)) ++
          entries.filter (fun e => decide (b ≤ e.1 ∧ e.1 < c)) := by
    induction entries with
    | nil => rfl
    | cons head rest ih =>
      obtain ⟨above, tail⟩ := List.pairwise_cons.mp ascending
      simp only [List.filter_cons, decide_eq_true_eq, ih tail]
      by_cases hleft : head.1 < b
      · by_cases ha : a ≤ head.1
        · rw [if_pos (by omega), if_pos (by omega), if_neg (by omega)]
          rfl
        · rw [if_neg (by omega), if_neg (by omega), if_neg (by omega)]
      · have hnone : rest.filter (fun e => decide (a ≤ e.1 ∧ e.1 < b)) = [] := by
          refine List.filter_eq_nil_iff.mpr fun e he => ?_
          have hlt : head.1 < e.1 := Int.compare_eq_lt.mp (above e he)
          simp only [decide_eq_true_eq]
          omega
        rw [hnone, if_neg (show ¬(a ≤ head.1 ∧ head.1 < b) by omega)]
        by_cases hc : head.1 < c
        · rw [if_pos (by omega), if_pos (by omega)]
          rfl
        · rw [if_neg (by omega), if_neg (by omega), List.nil_append]
  exact hcut s.entries s.ascending

theorem mem_restrict {s : Samples} {a b t : Int} {v : Float} (h : (t, v) ∈ (s.restrict a b).entries) :
    a ≤ t ∧ t < b := by
  have hmem := (List.mem_filter.mp h).2
  simpa using hmem

theorem restrict_empty (s : Samples) (a : Int) : (s.restrict a a).entries = [] := by
  refine List.filter_eq_nil_iff.mpr fun e _ => ?_
  simp only [decide_eq_true_eq]
  omega

theorem restrict_restrict (s : Samples) (a b : Int) : (s.restrict a b).restrict a b = s.restrict a b := by
  refine OrderedMap.ext ?_
  simp [Samples.restrict, OrderedMap.filter]

theorem between_eq (s : Samples) {a b : Int} (h : a ≤ b) : s.between a b = .ok (s.restrict a b) := by
  rw [Samples.between, if_neg (by omega)]

end Samples

theorem throughSeries_of_total {σ : Type} {f : σ → TimeSeries → Except Fault (σ × TimeSeries)}
    (h : ∀ state s, ∃ out, f state s = .ok out) (state : σ) (series : List TimeSeries) :
    ∃ out, throughSeries f state series = .ok out := by
  induction series generalizing state with
  | nil => exact ⟨_, rfl⟩
  | cons s rest ih =>
    obtain ⟨⟨state', out⟩, hs⟩ := h state s
    obtain ⟨⟨final, outs⟩, hrest⟩ := ih state'
    exact ⟨(final, out :: outs), by simp [throughSeries, hs, hrest, bind, Except.bind, pure, Except.pure]⟩

namespace Function

/-- What a function makes of the samples of one series: the number it carries on, from the one carried
to it, and its own samples. -/
def onSamples : Function → Option Float → Samples → Option Float × Samples
  | .raw, _, s => (none, s)
  | .runningSum, carried, s => (some (s.scan addUp (carried.getD 0.0)).1, (s.scan addUp (carried.getD 0.0)).2)
  | .delta, carried, s => s.scan subtractLast carried

/-- Samples in two parts may be given one part after the other. -/
theorem onSamples_append (f : Function) (carried : Option Float) {s left right : Samples}
    (h : s.entries = left.entries ++ right.entries) :
    (f.onSamples carried s).1 = (f.onSamples (f.onSamples carried left).1 right).1 ∧
    (f.onSamples carried s).2.entries =
      (f.onSamples carried left).2.entries ++ (f.onSamples (f.onSamples carried left).1 right).2.entries := by
  cases f with
  | raw => exact ⟨rfl, h⟩
  | runningSum => simp [onSamples, OrderedMap.scan, h, scanEntries_append]
  | delta => simp [onSamples, OrderedMap.scan, h, scanEntries_append]

theorem onSamples_carried_empty (f : Function) (carried : Option Float) {s : Samples} (h : s.entries = []) :
    f.onSamples (f.onSamples carried s).1 = f.onSamples carried := by
  cases f with
  | raw => rfl
  | runningSum => funext rest; simp [onSamples, OrderedMap.scan, h, scanEntries]
  | delta => funext rest; simp [onSamples, OrderedMap.scan, h, scanEntries]

theorem mem_onSamples {f : Function} {carried : Option Float} {s : Samples} {t : Int} {v : Float}
    (h : (t, v) ∈ (f.onSamples carried s).2.entries) : ∃ u, (t, u) ∈ s.entries := by
  cases f with
  | raw => exact ⟨v, h⟩
  | runningSum => exact OrderedMap.mem_scan_keys h
  | delta => exact OrderedMap.mem_scan_keys h

/-- The function over the window from `b` to `c`, with what it carries from `a` up to `b`, has the values
there that it has over the whole range. -/
theorem mem_onSamples_window (f : Function) (s : Samples) {a b c d : Int} (hab : a ≤ b) (hbc : b ≤ c)
    (hcd : c ≤ d) (t : Int) (v : Float) :
    (t, v) ∈ (f.onSamples (f.onSamples none (s.restrict a b)).1 (s.restrict b c)).2.entries ↔
      (t, v) ∈ (f.onSamples none (s.restrict a d)).2.entries ∧ b ≤ t ∧ t < c := by
  have hwhole := f.onSamples_append none (s.entries_restrict hab (by omega : b ≤ d))
  have hrest := f.onSamples_append (f.onSamples none (s.restrict a b)).1 (s.entries_restrict hbc hcd)
  rw [hwhole.2, hrest.2, List.mem_append, List.mem_append]
  constructor
  · intro h
    obtain ⟨u, hu⟩ := mem_onSamples h
    exact ⟨Or.inr (Or.inl h), Samples.mem_restrict hu⟩
  · rintro ⟨h | h | h, hin⟩
    · obtain ⟨u, hu⟩ := mem_onSamples h
      have := Samples.mem_restrict hu
      omega
    · exact h
    · obtain ⟨u, hu⟩ := mem_onSamples h
      have := Samples.mem_restrict hu
      omega

/-- What a function makes of one series over a window: the number it carries on, and its own series. -/
def onSeries (f : Function) (w : Window) (carried : Option Float) (s : TimeSeries) :
    Option Float × TimeSeries :=
  ((f.onSamples carried (s.values.restrict w.start w.stop)).1,
    ⟨s.tags, (f.onSamples carried (s.values.restrict w.start w.stop)).2⟩)

/-- A step on one series applies the function under the tags of that series and leaves the numbers of
other tags alone. -/
def AppliedBy (f : Function) (w : Window)
    (step : OrderedMap TagSet Float → TimeSeries → Except Fault (OrderedMap TagSet Float × TimeSeries)) :
    Prop :=
  ∀ m s, ∃ m', step m s = .ok (m', (f.onSeries w (m.get? s.tags) s).2) ∧
    m'.get? s.tags = (f.onSeries w (m.get? s.tags) s).1 ∧
    ∀ tags, tags ≠ s.tags → m'.get? tags = m.get? tags

theorem runningSum_appliedBy {w : Window} (h : w.start ≤ w.stop) :
    Function.runningSum.AppliedBy w (runningSumOf w) := by
  intro m s
  refine ⟨_, ?_, OrderedMap.get?_insert_self m s.tags _, fun tags htags => m.get?_insert_other _ htags⟩
  simp only [runningSumOf, Samples.between_eq _ h, bind, Except.bind]
  rfl

/-- A difference that leaves no number behind has found none. -/
theorem carried_of_subtractLast {carried : Option Float} {entries : List (Int × Float)}
    (h : (scanEntries subtractLast carried entries).1 = none) : carried = none := by
  induction entries generalizing carried with
  | nil => exact h
  | cons head rest ih =>
    have hnext : (subtractLast carried head.1 head.2).1 = none := ih h
    unfold subtractLast at hnext
    split at hnext
    next => exact hnext
    next => simp at hnext

theorem delta_appliedBy {w : Window} (h : w.start ≤ w.stop) :
    Function.delta.AppliedBy w (deltaOf w) := by
  intro m s
  simp only [deltaOf, Samples.between_eq _ h, bind, Except.bind, onSeries, onSamples]
  cases hscan : (s.values.restrict w.start w.stop).scan subtractLast (m.get? s.tags) with
  | mk carried differences =>
    cases carried with
    | none =>
      have hnone : m.get? s.tags = none := carried_of_subtractLast (congrArg Prod.fst hscan)
      exact ⟨m, rfl, hnone, fun _ _ => rfl⟩
    | some last =>
      exact ⟨_, rfl, OrderedMap.get?_insert_self m s.tags last,
        fun tags htags => m.get?_insert_other last htags⟩

theorem AppliedBy.total {f : Function} {w : Window}
    {step : OrderedMap TagSet Float → TimeSeries → Except Fault (OrderedMap TagSet Float × TimeSeries)}
    (h : f.AppliedBy w step) (m : OrderedMap TagSet Float) (s : TimeSeries) : ∃ out, step m s = .ok out := by
  obtain ⟨m', hstep, -⟩ := h m s
  exact ⟨_, hstep⟩

theorem throughSeries_of_appliedBy {f : Function} {w : Window}
    {step : OrderedMap TagSet Float → TimeSeries → Except Fault (OrderedMap TagSet Float × TimeSeries)}
    (h : f.AppliedBy w step) (m : OrderedMap TagSet Float) {series : List TimeSeries}
    (distinct : series.Pairwise fun s s' => s.tags ≠ s'.tags) :
    ∃ m', throughSeries step m series =
        .ok (m', series.map fun s => (f.onSeries w (m.get? s.tags) s).2) ∧
      (∀ s ∈ series, m'.get? s.tags = (f.onSeries w (m.get? s.tags) s).1) ∧
      ∀ tags, (∀ s ∈ series, tags ≠ s.tags) → m'.get? tags = m.get? tags := by
  induction series generalizing m with
  | nil => exact ⟨m, rfl, by simp, fun _ _ => rfl⟩
  | cons s rest ih =>
    obtain ⟨hne, hrest⟩ := List.pairwise_cons.mp distinct
    obtain ⟨m₁, hstep, hself, hother⟩ := h m s
    obtain ⟨m₂, hthrough, hsame, hleft⟩ := ih m₁ hrest
    have hkept : ∀ s' ∈ rest, m₁.get? s'.tags = m.get? s'.tags := fun s' hs' =>
      hother s'.tags fun heq => hne s' hs' heq.symm
    refine ⟨m₂, ?_, ?_, ?_⟩
    · have hmap : (rest.map fun s' => (f.onSeries w (m₁.get? s'.tags) s').2) =
          rest.map fun s' => (f.onSeries w (m.get? s'.tags) s').2 :=
        List.map_congr_left fun s' hs' => by rw [hkept s' hs']
      simp only [throughSeries, hstep, hthrough, hmap, bind, Except.bind, List.map_cons]
      rfl
    · intro s' hs'
      rcases List.mem_cons.mp hs' with rfl | hs'
      · rw [hleft _ fun s'' hs'' => hne s'' hs'', hself]
      · rw [hsame s' hs', hkept s' hs']
    · intro tags htags
      obtain ⟨hs, htags⟩ := List.forall_mem_cons.mp htags
      rw [hleft tags htags, hother tags hs]

/-- Over a window that is not inverted an expression answers with series, whatever the data and the state. -/
theorem evaluates_forward (f : Function) (q : BaseQuery) {w : Window} (h : w.start ≤ w.stop) (d : RawData)
    (state : CarriedState) : ∃ ev, (f.toExpression q).evaluate w d state = .ok (.ok ev) := by
  cases f with
  | raw => exact ⟨_, rfl⟩
  | runningSum =>
    obtain ⟨⟨totals, sums⟩, hthrough⟩ :=
      throughSeries_of_total (runningSum_appliedBy h).total state.byTags (d.seriesOf q)
    refine ⟨⟨sums, .totals totals⟩, ?_⟩
    simp only [toExpression, hthrough, bind, Except.bind]
    rfl
  | delta =>
    obtain ⟨⟨lastSeen, differences⟩, hthrough⟩ :=
      throughSeries_of_total (delta_appliedBy h).total state.byTags (d.seriesOf q)
    refine ⟨⟨differences, .totals lastSeen⟩, ?_⟩
    simp only [toExpression, hthrough, bind, Except.bind]
    rfl

/-- What is known of the state that a function leaves behind over some series. -/
structure Leaves (f : Function) (w : Window) (series : List TimeSeries) (before after : CarriedState) : Prop where
  /-- The number that it carries on from the samples of each series. -/
  carried : ∀ s ∈ series, after.byTags.get? s.tags = (f.onSeries w (before.byTags.get? s.tags) s).1
  /-- What was carried for other tags stays. -/
  others : f ≠ .raw → ∀ tags, (∀ s ∈ series, tags ≠ s.tags) → after.byTags.get? tags = before.byTags.get? tags
  form : after = if f = .raw then .empty else .totals after.byTags

/-- Only one state can be left behind. -/
theorem Leaves.unique {f : Function} {w : Window} {series : List TimeSeries} {before left right : CarriedState}
    (hl : f.Leaves w series before left) (hr : f.Leaves w series before right) : left = right := by
  rw [hl.form, hr.form]
  by_cases hraw : f = .raw
  · rw [if_pos hraw, if_pos hraw]
  rw [if_neg hraw, if_neg hraw, CarriedState.totals.injEq]
  refine OrderedMap.ext_get? fun tags => ?_
  by_cases hsome : ∃ s ∈ series, s.tags = tags
  · obtain ⟨s, hs, rfl⟩ := hsome
    rw [hl.carried s hs, hr.carried s hs]
  · have hnone : ∀ s ∈ series, tags ≠ s.tags := fun s hs heq => hsome ⟨s, hs, heq.symm⟩
    rw [hl.others hraw tags hnone, hr.others hraw tags hnone]

/-- An expression applies its function to each series of its query, with the number that it carries for
the tags of the series. -/
theorem evaluate_toExpression (f : Function) {q : BaseQuery} {w : Window} {d : RawData}
    (state : CarriedState) (h : w.start ≤ w.stop)
    (distinct : (d.seriesOf q).Pairwise fun s s' => s.tags ≠ s'.tags) :
    ∃ state', (f.toExpression q).evaluate w d state =
        .ok (.ok ⟨(d.seriesOf q).map fun s => (f.onSeries w (state.byTags.get? s.tags) s).2, state'⟩) ∧
      f.Leaves w (d.seriesOf q) state state' := by
  cases f with
  | raw => exact ⟨.empty, rfl, ⟨fun _ _ => rfl, fun hraw => absurd rfl hraw, rfl⟩⟩
  | runningSum =>
    obtain ⟨m, hthrough, hcarried, hothers⟩ :=
      throughSeries_of_appliedBy (runningSum_appliedBy h) state.byTags distinct
    exact ⟨.totals m, by simp only [toExpression, hthrough, bind, Except.bind]; rfl,
      ⟨hcarried, fun _ => hothers, rfl⟩⟩
  | delta =>
    obtain ⟨m, hthrough, hcarried, hothers⟩ :=
      throughSeries_of_appliedBy (delta_appliedBy h) state.byTags distinct
    exact ⟨.totals m, by simp only [toExpression, hthrough, bind, Except.bind]; rfl,
      ⟨hcarried, fun _ => hothers, rfl⟩⟩

end Function

end SeriesStream
