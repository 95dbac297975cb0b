import SeriesStream.Proofs.Carried
import SeriesStream.Proofs.Composition

namespace SeriesStream

/-- Windows of any step, each beginning where the one before it ends, from `a` up to `b`. Some may be empty. -/
inductive Adjoining : Int → List Window → Int → Prop
  | nil (a : Int) : Adjoining a [] a
  | cons {w : Window} {ws : List Window} {b : Int} (forward : w.start ≤ w.stop) (rest : Adjoining w.stop ws b) :
      Adjoining w.start (w :: ws) b

theorem Adjoining.le {a b : Int} {ws : List Window} (h : Adjoining a ws b) : a ≤ b := by
  induction h with
  | nil => exact Int.le_refl _
  | cons forward _ ih => exact Int.le_trans forward ih

theorem Adjoining.eq_of_nil {a b : Int} (h : Adjoining a [] b) : a = b := by
  cases h
  rfl

theorem Adjoining.start_le {a b : Int} {ws : List Window} (h : Adjoining a ws b) : ∀ w ∈ ws, a ≤ w.start := by
  induction h with
  | nil => simp
  | cons forward _ ih => exact List.forall_mem_cons.mpr ⟨Int.le_refl _, fun v hv => Int.le_trans forward (ih v hv)⟩

namespace Samples

/-- The samples of a range are those of its windows, one window after the other. -/
theorem entries_adjoining (s : Samples) {a b : Int} {ws : List Window} (h : Adjoining a ws b) :
    ws.flatMap (fun w => (s.restrict w.start w.stop).entries) = (s.restrict a b).entries := by
  induction h with
  | nil => exact (s.restrict_empty _).symm
  | cons forward rest ih => rw [List.flatMap_cons, ih, ← s.entries_restrict forward rest.le]

theorem restrict_eq_self {s : Samples} {a b : Int} (h : ∀ e ∈ s.entries, a ≤ e.1 ∧ e.1 < b) : s.restrict a b = s := by
  refine OrderedMap.ext (List.filter_eq_self.mpr fun e he => ?_)
  simpa using h e he

theorem entries_restrict_nil {s : Samples} {a b : Int} (h : ∀ e ∈ s.entries, e.1 < a ∨ b ≤ e.1) :
    (s.restrict a b).entries = [] := by
  refine List.filter_eq_nil_iff.mpr fun e he => ?_
  have := h e he
  simp only [decide_eq_true_eq]
  omega

/-- Samples in two parts are cut between them. -/
theorem restrict_of_parts {s left right : Samples} {a b : Int} (h : s.entries = left.entries ++ right.entries)
    (hleft : ∀ e ∈ left.entries, a ≤ e.1 ∧ e.1 < b) (hright : ∀ e ∈ right.entries, b ≤ e.1) :
    s.restrict a b = left ∧ ∀ c d, b ≤ c → s.restrict c d = right.restrict c d := by
  have hparts (c d : Int) :
      (s.restrict c d).entries = (left.restrict c d).entries ++ (right.restrict c d).entries := by
    simp only [restrict, OrderedMap.filter, h, List.filter_append]
  constructor
  · have hnone : (right.restrict a b).entries = [] := entries_restrict_nil fun e he => Or.inr (hright e he)
    refine OrderedMap.ext ?_
    rw [hparts, hnone, List.append_nil, restrict_eq_self hleft]
  · intro c d hc
    have hnone : (left.restrict c d).entries = [] := by
      refine entries_restrict_nil fun e he => Or.inl ?_
      have := (hleft e he).2
      omega
    refine OrderedMap.ext ?_
    rw [hparts, hnone, List.nil_append]

end Samples

namespace Function

variable {f : Function}

theorem within_of_onSeries {w : Window} {carried : Option Float} {s : TimeSeries} {e : Int × Float}
    (h : e ∈ (f.onSeries w carried s).2.values.entries) : w.start ≤ e.1 ∧ e.1 < w.stop := by
  obtain ⟨u, hu⟩ := mem_onSamples h
  exact Samples.mem_restrict hu

section

variable {a b c : Int} (hab : a ≤ b) (hbc : b ≤ c) (x y z : Int)

include hab hbc

/-- A window in two parts may be gone through one part after the other: what is carried over the first part is
carried on over the second, and the samples are cut between the parts. -/
theorem onSeries_of_parts (f : Function) (carried : Option Float) (s : TimeSeries) :
    (f.onSeries ⟨a, c, z⟩ carried s).1 = (f.onSeries ⟨b, c, y⟩ (f.onSeries ⟨a, b, x⟩ carried s).1 s).1 ∧
    (f.onSeries ⟨a, c, z⟩ carried s).2.restrict a b = (f.onSeries ⟨a, b, x⟩ carried s).2 ∧
    ∀ t u, b ≤ t → (f.onSeries ⟨a, c, z⟩ carried s).2.restrict t u =
      (f.onSeries ⟨b, c, y⟩ (f.onSeries ⟨a, b, x⟩ carried s).1 s).2.restrict t u := by
  obtain ⟨hcarried, hentries⟩ := f.onSamples_append carried (s.values.entries_restrict hab hbc)
  have hleft : ∀ e ∈ (f.onSeries ⟨a, b, x⟩ carried s).2.values.entries, a ≤ e.1 ∧ e.1 < b :=
    fun e he => within_of_onSeries he
  have hright : ∀ e ∈ (f.onSeries ⟨b, c, y⟩ (f.onSeries ⟨a, b, x⟩ carried s).1 s).2.values.entries, b ≤ e.1 :=
    fun e he => (within_of_onSeries he).1
  obtain ⟨hfirst, hsecond⟩ := Samples.restrict_of_parts hentries hleft hright
  exact ⟨hcarried, congrArg (TimeSeries.mk s.tags) hfirst,
    fun t u ht => congrArg (TimeSeries.mk s.tags) (hsecond t u ht)⟩

theorem Leaves.of_parts {series : List TimeSeries} {before between after : CarriedState}
    (left : f.Leaves ⟨a, b, x⟩ series before between) (right : f.Leaves ⟨b, c, y⟩ series between after) :
    f.Leaves ⟨a, c, z⟩ series before after where
  carried s hs := by
    rw [right.carried s hs, left.carried s hs]
    exact (onSeries_of_parts hab hbc x y z f _ s).1.symm
  others hraw tags htags := (right.others hraw tags htags).trans (left.others hraw tags htags)
  form := right.form

end

/-- The windows of a range, evaluated one after the other with the state handed on, yield what the range yields
at once, cut at their bounds, and they leave the same state behind. -/
theorem evaluate_adjoining (f : Function) {q : BaseQuery} {d : RawData}
    (distinct : (d.seriesOf q).Pairwise fun s s' => s.tags ≠ s'.tags) {a b : Int} {ws : List Window}
    (adjoining : Adjoining a ws b) (step : Int) (state : CarriedState) :
    ∃ (whole : Evaluation) (evaluations : List Evaluation), (f.toExpression q).evaluate ⟨a, b, step⟩ d state = .ok (.ok whole) ∧
      (f.toExpression q).answers state (ws.map (⟨·, d⟩)) = evaluations.map (fun ev => .ok (.ok ev)) ∧
      evaluations.map (·.series) = ws.map (fun w => whole.series.map (·.restrict w.start w.stop)) ∧
      ∀ last, evaluations.getLast? = some last → last.state = whole.state := by
  induction adjoining generalizing state with
  | nil a =>
    obtain ⟨after, hwhole, -⟩ := f.evaluate_toExpression (w := ⟨a, a, step⟩) state (Int.le_refl a) distinct
    exact ⟨_, [], hwhole, rfl, rfl, by simp⟩
  | @cons w ws b forward rest ih =>
    have hbehind := rest.start_le
    obtain ⟨between, hfirst, hleft⟩ := f.evaluate_toExpression (w := w) state forward distinct
    obtain ⟨after, hsecond, hright⟩ :=
      f.evaluate_toExpression (w := ⟨w.stop, b, step⟩) between rest.le distinct
    obtain ⟨final, hwhole, hleaves⟩ := f.evaluate_toExpression (w := ⟨w.start, b, step⟩) state
      (Int.le_trans forward rest.le) distinct
    obtain ⟨others, evaluations, hothers, hanswers, hseries, hlast⟩ := ih between
    obtain rfl := Except.ok.inj (Except.ok.inj (hsecond.symm.trans hothers))
    have hfinal : after = final := (hleft.of_parts forward rest.le _ _ _ hright).unique hleaves
    have hparts (s : TimeSeries) :=
      onSeries_of_parts forward rest.le w.step step step f (state.byTags.get? s.tags) s
    let first : Evaluation :=
      ⟨(d.seriesOf q).map fun s => (f.onSeries w (state.byTags.get? s.tags) s).2, between⟩
    refine ⟨_, first :: evaluations, hwhole, ?_, ?_, ?_⟩
    · simp only [List.map_cons, Expression.answers, hfirst, hanswers, first]
    · rw [List.map_cons, List.map_cons, hseries]
      refine List.cons_eq_cons.mpr ⟨?_, List.map_congr_left fun v hv => ?_⟩
      · rw [List.map_map]
        exact List.map_congr_left fun s _ => (hparts s).2.1.symm
      · rw [List.map_map, List.map_map]
        refine List.map_congr_left fun s hs => ?_
        simp only [Function.comp_apply, hleft.carried s hs]
        exact ((hparts s).2.2 v.start v.stop (hbehind v hv)).symm
    · intro last hlast'
      cases evaluations with
      | nil =>
        obtain rfl := Option.some.inj hlast'
        obtain rfl : ws = [] := by simpa using hseries.symm
        obtain rfl := rest.eq_of_nil
        exact hleft.unique ⟨hleaves.carried, hleaves.others, hleaves.form⟩
      | cons ev evaluations =>
        rw [List.getLast?_cons_cons] at hlast'
        exact (hlast last hlast').trans hfinal

theorem within_of_evaluate {f : Function} {q : BaseQuery} {d : RawData}
    (distinct : (d.seriesOf q).Pairwise fun s s' => s.tags ≠ s'.tags) {w : Window} (forward : w.start ≤ w.stop)
    {state : CarriedState} {ev : Evaluation} (h : (f.toExpression q).evaluate w d state = .ok (.ok ev)) :
    ∀ s ∈ ev.series, ∀ e ∈ s.values.entries, w.start ≤ e.1 ∧ e.1 < w.stop := by
  obtain ⟨after, hev, -⟩ := f.evaluate_toExpression state forward distinct
  obtain rfl := Except.ok.inj (Except.ok.inj (h.symm.trans hev))
  intro s hs e he
  obtain ⟨s, -, rfl⟩ := List.mem_map.mp hs
  exact within_of_onSeries he

/-- Of each built-in function and from every state: the windows of a range, one after the other on the same
data, yield just the samples that the whole range yields at once, cut at the bounds of the windows, and behind
the last one the state is the same. -/
theorem windows_share_out_the_range (f : Function) (q : BaseQuery) (d : RawData) (state : CarriedState)
    (distinct : (d.seriesOf q).Pairwise fun s s' => s.tags ≠ s'.tags) {a b : Int} {ws : List Window}
    (adjoining : Adjoining a ws b) (step : Int) :
    ∃ (whole : Evaluation) (evaluations : List Evaluation),
      (f.toExpression q).evaluate ⟨a, b, step⟩ d state = .ok (.ok whole) ∧
      (f.toExpression q).answers state (ws.map (⟨·, d⟩)) = evaluations.map (fun ev => .ok (.ok ev)) ∧
      evaluations.map (·.series) = ws.map (fun w => whole.series.map (·.restrict w.start w.stop)) ∧
      (∀ s ∈ whole.series, ws.flatMap (fun w => (s.restrict w.start w.stop).values.entries) = s.values.entries) ∧
      (ws ≠ [] → ∃ last, evaluations.getLast? = some last ∧ last.state = whole.state) := by
  obtain ⟨whole, evaluations, hwhole, hanswers, hseries, hlast⟩ :=
    f.evaluate_adjoining distinct adjoining step state
  refine ⟨whole, evaluations, hwhole, hanswers, hseries, fun s hs => ?_, fun hsome => ?_⟩
  · have hwithin := within_of_evaluate distinct adjoining.le hwhole s hs
    calc ws.flatMap (fun w => (s.restrict w.start w.stop).values.entries)
      _ = (s.values.restrict a b).entries := s.values.entries_adjoining adjoining
      _ = s.values.entries := by rw [Samples.restrict_eq_self hwithin]
  · have hlength : evaluations.length = ws.length := by simpa using congrArg List.length hseries
    have hne : evaluations ≠ [] := by
      rw [← List.length_pos_iff, hlength, List.length_pos_iff]
      exact hsome
    exact ⟨_, List.getLast?_eq_some_getLast hne, hlast _ (List.getLast?_eq_some_getLast hne)⟩

/-- Two hosts, the second without a sample in the first second and with a gap behind it. -/
def lateHost : RawData := OrderedMap.ofList [("cpu",
  [.ofPoints (.ofPairs [("host", "a")]) [(0, 5.0), (500, 8.0), (2500, 6.0)],
    .ofPoints (.ofPairs [("host", "b")]) [(1000, 0.0 / 0.0), (1200, 1.0), (2999, 4.0)]])]

/-- Three windows up to the third second, the one in the middle empty. -/
def threeWindows : List Window := [⟨0, 1000, 1000⟩, ⟨1000, 1000, 1000⟩, ⟨1000, 3000, 1000⟩]

theorem differences_are_shared_out :
    ∃ (whole : Evaluation) (evaluations : List Evaluation),
      (delta.toExpression "cpu").evaluate ⟨0, 3000, 1000⟩ lateHost (.other 41) = .ok (.ok whole) ∧
      whole.series.map (·.values.entries) = [[(500, 3.0), (2500, -2.0)], [(2999, 3.0)]] ∧
      (delta.toExpression "cpu").answers (.other 41) (threeWindows.map (⟨·, lateHost⟩)) =
        evaluations.map (fun ev => .ok (.ok ev)) ∧
      evaluations.map (·.series) = threeWindows.map (fun w => whole.series.map (·.restrict w.start w.stop)) ∧
      ∃ last, evaluations.getLast? = some last ∧ last.state = whole.state := by
  have distinct : (lateHost.seriesOf "cpu").Pairwise fun s s' => s.tags ≠ s'.tags := by decide
  have adjoining : Adjoining 0 threeWindows 3000 :=
    .cons (w := ⟨0, 1000, 1000⟩) (by decide) (.cons (w := ⟨1000, 1000, 1000⟩) (by decide)
      (.cons (w := ⟨1000, 3000, 1000⟩) (by decide) (.nil 3000)))
  obtain ⟨told, htold, hvalues⟩ : ∃ told,
      (delta.toExpression "cpu").evaluate ⟨0, 3000, 1000⟩ lateHost (.other 41) = .ok (.ok told) ∧
        told.series.map (·.values.entries) = [[(500, 3.0), (2500, -2.0)], [(2999, 3.0)]] := ⟨_, rfl, rfl⟩
  obtain ⟨whole, evaluations, hwhole, hanswers, hseries, -, hlast⟩ :=
    windows_share_out_the_range .delta "cpu" lateHost (.other 41) distinct adjoining 1000
  obtain rfl := Except.ok.inj (Except.ok.inj (htold.symm.trans hwhole))
  exact ⟨told, evaluations, hwhole, hvalues, hanswers, hseries, hlast (by decide)⟩

end Function

end SeriesStream
