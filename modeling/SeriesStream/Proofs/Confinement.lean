import SeriesStream.Proofs.Lifecycle
import SeriesStream.Proofs.Ordered
import SeriesStream.Proofs.Refinement
import SeriesStream.Proofs.Transcript

namespace SeriesStream

namespace Function

/-- However often tags are repeated, what comes out is what the function makes of series that went in. -/
theorem throughSeries_outputs {f : Function} {w : Window}
    {step : OrderedMap TagSet Float → TimeSeries → Except Fault (OrderedMap TagSet Float × TimeSeries)}
    (h : f.AppliedBy w step) (m : OrderedMap TagSet Float) (series : List TimeSeries) :
    ∃ m' outs, throughSeries step m series = .ok (m', outs) ∧
      ∀ out ∈ outs, ∃ s ∈ series, ∃ carried, out = (f.onSeries w carried s).2 := by
  induction series generalizing m with
  | nil => exact ⟨m, [], rfl, by simp⟩
  | cons s rest ih =>
    obtain ⟨m₁, hstep, -⟩ := h m s
    obtain ⟨m₂, outs, hthrough, houts⟩ := ih m₁
    refine ⟨m₂, (f.onSeries w (m.get? s.tags) s).2 :: outs, ?_, List.forall_mem_cons.mpr ⟨?_, fun out hout => ?_⟩⟩
    · simp only [throughSeries, hstep, hthrough, bind, Except.bind]
      rfl
    · exact ⟨s, List.mem_cons_self, _, rfl⟩
    · obtain ⟨s', hs', hmade⟩ := houts out hout
      exact ⟨s', List.mem_cons_of_mem _ hs', hmade⟩

theorem evaluate_outputs (f : Function) (q : BaseQuery) {w : Window} (forward : w.start ≤ w.stop) (d : RawData)
    (state : CarriedState) :
    ∃ ev, (f.toExpression q).evaluate w d state = .ok (.ok ev) ∧
      ∀ out ∈ ev.series, ∃ s ∈ d.seriesOf q, ∃ carried, out = (f.onSeries w carried s).2 := by
  cases f with
  | raw =>
    refine ⟨_, rfl, fun out hout => ?_⟩
    obtain ⟨s, hs, rfl⟩ := List.mem_map.mp hout
    exact ⟨s, hs, none, rfl⟩
  | runningSum =>
    obtain ⟨totals, sums, hthrough, hsums⟩ :=
      throughSeries_outputs (runningSum_appliedBy forward) state.byTags (d.seriesOf q)
    refine ⟨⟨sums, .totals totals⟩, ?_, hsums⟩
    simp only [toExpression, hthrough, bind, Except.bind]
    rfl
  | delta =>
    obtain ⟨lastSeen, differences, hthrough, hdifferences⟩ :=
      throughSeries_outputs (delta_appliedBy forward) state.byTags (d.seriesOf q)
    refine ⟨⟨differences, .totals lastSeen⟩, ?_, hdifferences⟩
    simp only [toExpression, hthrough, bind, Except.bind]
    rfl

/-- Out of a window come only instants of the window at which the series has a sample. -/
theorem stamps_onSeries {f : Function} {w : Window} {carried : Option Float} {s : TimeSeries} {t : Int}
    (h : t ∈ (f.onSeries w carried s).2.values.keys) : t ∈ s.values.keys ∧ w.start ≤ t ∧ t < w.stop := by
  obtain ⟨e, he, rfl⟩ := List.mem_map.mp h
  obtain ⟨u, hu⟩ := mem_onSamples he
  have hsample : (e.1, u) ∈ s.values.entries := (List.mem_filter.mp hu).1
  exact ⟨List.mem_map.mpr ⟨_, hsample, rfl⟩, Samples.mem_restrict hu⟩

end Function

/-- A result on the window of a chunk, drawn by an expression of the plan from a series that the chunk has for
the query of that expression. -/
structure WindowSeries.DrawnFrom (r : WindowSeries) (plan : Plan) (c : Chunk) : Prop where
  window : r.window = c.window
  within : ∀ t ∈ r.values.keys, c.window.start ≤ t ∧ t < c.window.stop
  series : ∃ p ∈ plan.expressions, r.expression = p.name ∧ ∃ f q, p.expression = Function.toExpression f q ∧
    ∃ s ∈ c.data.seriesOf q, s.tags = r.tags ∧ ∀ t ∈ r.values.keys, t ∈ s.values.keys

section

variable {plan : Plan} (builtin : ∀ p ∈ plan.expressions, ∃ f q, p.expression = Function.toExpression f q)

include builtin

theorem Slot.drawn_of_shown {slot : Slot} {c : Chunk} {ev : Evaluation} (planned : slot.planned ∈ plan.expressions)
    (proper : c.window.Proper) (yields : slot.evaluate c = .ok (.ok ev)) :
    ∀ r ∈ slot.shown c ev.series, r.DrawnFrom plan c := by
  intro r hr
  obtain ⟨out, hout, rfl⟩ := List.mem_map.mp hr
  obtain ⟨f, q, hexpression⟩ := builtin slot.planned planned
  obtain ⟨made, hmade, hseries⟩ :=
    f.evaluate_outputs q (Int.le_of_lt proper.start_lt_stop) c.data slot.state
  rw [Slot.evaluate, hexpression, hmade] at yields
  obtain rfl := Except.ok.inj (Except.ok.inj yields)
  obtain ⟨s, hs, carried, rfl⟩ := hseries out (List.mem_filter.mp hout).1
  exact ⟨rfl, fun t ht => (Function.stamps_onSeries ht).2,
    slot.planned, planned, rfl, f, q, hexpression, s, hs, rfl, fun t ht => (Function.stamps_onSeries ht).1⟩

theorem Slot.AllYield.drawn {c : Chunk} {slots slots' : List Slot} {results : List WindowSeries}
    (h : AllYield c slots results slots') (proper : c.window.Proper)
    (planned : ∀ slot ∈ slots, slot.planned ∈ plan.expressions) : ∀ r ∈ results, r.DrawnFrom plan c := by
  induction h with
  | nil => simp
  | @cons slot slots slots' results ev yields rest ih =>
    obtain ⟨hslot, hslots⟩ := List.forall_mem_cons.mp planned
    intro r hr
    rcases List.mem_append.mp hr with hr | hr
    · exact Slot.drawn_of_shown builtin hslot proper yields r hr
    · exact ih hslots r hr

/-- The batch of a window shows what is drawn from the answer to the request for that window. -/
theorem Source.Yields.drawn {s : Source} {n : Nat} {slots final : List Slot} {ws : List Window}
    {batches : List WindowBatch} (h : s.Yields n slots ws batches final) (proper : ∀ w ∈ ws, w.Proper)
    (planned : ∀ slot ∈ slots, slot.planned ∈ plan.expressions) {i : Nat} {batch : WindowBatch}
    (hbatch : batches[i]? = some batch) :
    ws[i]? = some batch.window ∧ ∃ delay d, s.reply (n + i) batch.window = ⟨some delay, .data d⟩ ∧
      delay ≤ s.timeout ∧ ∀ r ∈ batch.results, r.DrawnFrom plan ⟨batch.window, d⟩ := by
  induction h generalizing i with
  | nil => simp at hbatch
  | @cons n delay slots next final w ws d results batches replied inTime evaluated rest ih =>
    obtain ⟨hw, hws⟩ := List.forall_mem_cons.mp proper
    cases i with
    | zero =>
      obtain rfl := Option.some.inj hbatch
      exact ⟨rfl, delay, d, replied, inTime, evaluated.drawn builtin hw planned⟩
    | succ i =>
      have hnext : ∀ slot ∈ next, slot.planned ∈ plan.expressions :=
        evaluated.forall_planned (P := (· ∈ plan.expressions)) planned
      rw [show n + (i + 1) = n + 1 + i by omega]
      exact ih hws hnext hbatch

end

theorem Plan.planned_of_slots (plan : Plan) : ∀ slot ∈ plan.slots, slot.planned ∈ plan.expressions := by
  intro slot hslot
  obtain ⟨p, hp, rfl⟩ := List.mem_map.mp hslot
  exact hp

/-- The event shows a sample of this instant. -/
def StreamEvent.Stamps (e : StreamEvent) (t : Int) : Prop :=
  ∃ results, e = .data results ∧ ∃ r ∈ results, t ∈ r.values.keys

theorem StreamEvent.data?_eq {e : StreamEvent} {results : List WindowSeries} :
    e.data? = some results ↔ e = .data results := by
  cases e <;> simp [data?]

namespace Execution

variable {x y : Execution} {es : List StreamEvent} {past : Bool}

/-- What a consumer was told is the beginning of what there was to tell, and what is left of that is still to
come unless the consumer has gone away. -/
theorem Attends.future (h : x.Attends es past y) (kept : x.Kept [] false) :
    es.filter (!·.isInfo) <+: x.future ∧
      (past = false → x.future = es.filter (!·.isInfo) ++ y.future) := by
  induction h with
  | here => exact ⟨List.nil_prefix, fun _ => rfl⟩
  | @told es past y z e attends pulled ih =>
    -- who is told an event has not gone away, so that the execution tells what was still to come
    have hkept := kept.attends attends
    have hpast := hkept.going_of_told pulled
    have hpulled := (advances_of_pull (hkept.going hpast).sound pulled).future
    have hfuture : x.future = (es ++ [e]).filter (!·.isInfo) ++ z.future := by
      rw [ih.2 hpast, hpulled, List.filter_append, List.append_assoc]
      rfl
    exact ⟨⟨z.future, hfuture.symm⟩, fun _ => hfuture⟩
  | ended _ _ ih => exact ⟨ih.1, by simp⟩
  | @givenUp es past y z p choices attends there quiet streaming waits ih =>
    refine ⟨ih.1, fun hpast => ?_⟩
    have hquiet := (quiet.advances ((kept.attends attends).going hpast).sound).future
    rw [ih.2 hpast, hquiet]
    simp [Execution.future, streaming, waits.course_eq]
  | @sleep es past y attends duration ih =>
    refine ⟨ih.1, fun hpast => ?_⟩
    have hslept := (advances_sleep ((kept.attends attends).going hpast).sound duration).future
    rw [ih.2 hpast, hslept]
    rfl
  | drop _ ih => exact ⟨ih.1, by simp⟩

end Execution

section

variable {plan : Plan} {windows : List Window} {backend : Backend} {options : StreamOptions} {x y : Execution}
  {es : List StreamEvent} {past : Bool}

/-- The data that a consumer was told so far are those of some of the batches that the windows yield, in their
order. -/
theorem data_of_attends (started : Started plan windows backend options x)
    (steady : ∀ p ∈ plan.expressions, p.expression.Steady) (kept : x.Kept [] false)
    (attends : x.Attends es past y) :
    ∃ first batches final, first <+: windows ∧
      (plan.source backend options).Yields 0 plan.slots first batches final ∧
      ∃ told : List WindowBatch, told.Sublist batches ∧
        es.filterMap StreamEvent.data? = told.map (·.results) := by
  obtain ⟨first, batches, final, ends, hfirst, hyield, hevents, hends⟩ := yields_of_courseOver started.cut steady
  have hprefix := (attends.future kept).1.filterMap StreamEvent.data?
  rw [data_of_filter_isInfo, started.future, hevents, List.filterMap_append, hends, List.append_nil,
    data_of_dataOf] at hprefix
  obtain ⟨told, htold, hdata⟩ := List.prefix_map_iff.mp hprefix
  exact ⟨first, batches, final, hfirst, hyield, told, htold.sublist.trans List.filter_sublist, hdata⟩

/-- The batches that a consumer was told come in the order of their windows, and each is drawn from the answer to
the request for its window. -/
theorem batches_of_attends (started : Started plan windows backend options x)
    (builtin : ∀ p ∈ plan.expressions, ∃ f q, p.expression = Function.toExpression f q) (kept : x.Kept [] false)
    (attends : x.Attends es past y) :
    ∃ told : List WindowBatch, es.filterMap StreamEvent.data? = told.map (·.results) ∧
      told.Pairwise (fun b c => b.window.stop ≤ c.window.start) ∧
      ∀ b ∈ told, ∃ i delay d, windows[i]? = some b.window ∧
        backend i ⟨plan.baseQueries, b.window⟩ = ⟨some delay, .data d⟩ ∧ delay ≤ options.timeout ∧
        ∀ r ∈ b.results, r.DrawnFrom plan ⟨b.window, d⟩ := by
  have steady : ∀ p ∈ plan.expressions, p.expression.Steady := by
    intro p hp
    obtain ⟨f, q, hexpression⟩ := builtin p hp
    exact hexpression ▸ (fluent_toExpression f q).steady
  obtain ⟨first, batches, final, ⟨rest, rfl⟩, hyield, told, htold, hdata⟩ :=
    data_of_attends started steady kept attends
  obtain ⟨_, _, _, _, chain, _⟩ := partition_chain started.cut
  refine ⟨told, hdata, ?_, fun b hb => ?_⟩
  · have hordered := chain.pairwise.sublist (List.sublist_append_left first rest)
    rw [← hyield.windows_eq, List.pairwise_map] at hordered
    exact hordered.sublist htold
  · obtain ⟨i, hi⟩ := List.mem_iff_getElem?.mp (htold.subset hb)
    have hproper : ∀ w ∈ first, w.Proper := fun w hw => chain.proper w (List.mem_append_left rest hw)
    obtain ⟨hw, delay, d, replied, inTime, hresults⟩ :=
      hyield.drawn builtin hproper plan.planned_of_slots hi
    rw [Nat.zero_add] at replied
    have hwindow : (first ++ rest)[i]? = some b.window := by
      rw [List.getElem?_append_left (List.getElem?_eq_some_iff.mp hw).1, hw]
    exact ⟨i, delay, d, hwindow, replied, inTime, hresults⟩

/-- Batches that keep to windows one behind the other have no instant in common. -/
theorem apart_of_within {told : List WindowBatch} (hdata : es.filterMap StreamEvent.data? = told.map (·.results))
    (ordered : told.Pairwise fun b c => b.window.stop ≤ c.window.start)
    (within : ∀ b ∈ told, ∀ r ∈ b.results, ∀ t ∈ r.values.keys, b.window.start ≤ t ∧ t < b.window.stop) :
    es.Pairwise fun e e' => ∀ t, ¬(e.Stamps t ∧ e'.Stamps t) := by
  have happart : (told.map (·.results)).Pairwise fun results results' =>
      ∀ r ∈ results, ∀ r' ∈ results', ∀ t ∈ r.values.keys, t ∉ r'.values.keys := by
    refine List.pairwise_map.mpr (ordered.imp_of_mem fun {b c} hb hc hle r hr r' hr' t ht ht' => ?_)
    have hbefore := (within b hb r hr t ht).2
    have hbehind := (within c hc r' hr' t ht').1
    omega
  rw [← hdata, List.pairwise_filterMap] at happart
  refine happart.imp fun h t => ?_
  rintro ⟨⟨results, he, r, hr, ht⟩, results', he', r', hr', ht'⟩
  exact h results (StreamEvent.data?_eq.mpr he) results' (StreamEvent.data?_eq.mpr he') r hr r' hr' t ht ht'

end

/-- Whatever a backend answers for built-in expressions, each data event that a consumer is told belongs to one
window: its results are drawn from the answer to the request for that window and lie in it. All of them lie in
the range that the windows cover, and no instant has samples in two data events. -/
theorem results_stay_in_their_windows {plan : Plan} {backend : Backend} {options : StreamOptions}
    {lead : Nat → Lead} {x y : Execution} {es : List StreamEvent} {past : Bool}
    (builtin : ∀ p ∈ plan.expressions, ∃ f q, p.expression = Function.toExpression f q)
    (hx : execute plan backend options lead = .ok (.ok x)) (attends : x.Attends es past y) :
    ∃ windows, partition plan.step plan.start plan.stop options.multiplier = .ok windows ∧
      (∀ results, .data results ∈ es → ∃ i w delay d, windows[i]? = some w ∧
        backend i ⟨plan.baseQueries, w⟩ = ⟨some delay, .data d⟩ ∧ delay ≤ options.timeout ∧
        ∀ r ∈ results, r.DrawnFrom plan ⟨w, d⟩) ∧
      (∀ e ∈ es, ∀ t, e.Stamps t →
        adjustedStart plan.step plan.start plan.stop ≤ t ∧ t < Instant.floor plan.stop plan.step) ∧
      es.Pairwise fun e e' => ∀ t, ¬(e.Stamps t ∧ e'.Stamps t) := by
  obtain ⟨windows, started⟩ := started_of_execute hx
  obtain ⟨_, _, _, _, chain, _⟩ := partition_chain started.cut
  obtain ⟨told, hdata, hordered, hdrawn⟩ := batches_of_attends started builtin (kept_of_execute hx) attends
  have hwithin : ∀ b ∈ told, ∀ r ∈ b.results, ∀ t ∈ r.values.keys, b.window.start ≤ t ∧ t < b.window.stop := by
    intro b hb r hr
    obtain ⟨_, _, _, _, _, _, hresults⟩ := hdrawn b hb
    exact (hresults r hr).within
  have hevent {results : List WindowSeries} (h : .data results ∈ es) : ∃ b ∈ told, b.results = results := by
    have hmem : results ∈ es.filterMap StreamEvent.data? := List.mem_filterMap.mpr ⟨_, h, rfl⟩
    rw [hdata] at hmem
    exact List.mem_map.mp hmem
  refine ⟨windows, started.cut, fun results hresults => ?_, fun e he t ht => ?_,
    apart_of_within hdata hordered hwithin⟩
  · obtain ⟨b, hb, rfl⟩ := hevent hresults
    obtain ⟨i, delay, d, hw, replied, inTime, hall⟩ := hdrawn b hb
    exact ⟨i, b.window, delay, d, hw, replied, inTime, hall⟩
  · obtain ⟨results, rfl, r, hr, ht⟩ := ht
    obtain ⟨b, hb, rfl⟩ := hevent he
    obtain ⟨i, _, _, hw, _⟩ := hdrawn b hb
    have hin := hwithin b hb r hr t ht
    have hcovered := chain.within b.window (List.mem_of_getElem? hw)
    omega

/-- Answers every request with one host twice, from before the first window up to the end of the last one, and
with a query that nobody asks for. -/
def Backend.lavish : Backend := fun _ _ => ⟨some 4, .data (OrderedMap.ofList [
  ("cpu", [.ofPoints (.ofPairs [("host", "a")]) [(-500, 1.0), (0, 2.0), (1000, 3.0), (3000, 4.0)],
    .ofPoints (.ofPairs [("host", "a")]) [(0, 5.0), (1000, 6.0)]]),
  ("mem", [.ofPoints (.ofPairs [("host", "a")]) [(0, 7.0)]])])⟩

theorem lavish_sums_stay_in_their_windows :
    ∃ x y first second, execute .sums .lavish .fine (fun _ => .heartbeat) = .ok (.ok x) ∧
      x.Attends [.info "beat", .data first, .data second] false y ∧
      first.map (·.values.keys) = [[0], [0]] ∧ second.map (·.values.keys) = [[1000], [1000]] ∧
      (∃ i w delay d, [⟨0, 1000, 1000⟩, ⟨1000, 2000, 1000⟩, ⟨2000, 3000, 1000⟩][i]? = some w ∧
        Backend.lavish i ⟨["cpu"], w⟩ = ⟨some delay, .data d⟩ ∧ ∀ r ∈ second, r.DrawnFrom .sums ⟨w, d⟩) ∧
      ∀ t, ¬((StreamEvent.data first).Stamps t ∧ (StreamEvent.data second).Stamps t) := by
  obtain ⟨x, hx⟩ : ∃ x, execute .sums .lavish .fine (fun _ => .heartbeat) = .ok (.ok x) := ⟨_, rfl⟩
  obtain ⟨a, ha⟩ : ∃ a, x.pull = .ok (some (.info "beat"), a) := by
    obtain rfl := Except.ok.inj (Except.ok.inj hx)
    exact ⟨_, rfl⟩
  obtain ⟨first, b, hb, hfirst⟩ : ∃ first b, a.pull = .ok (some (.data first), b) ∧
      first.map (·.values.keys) = [[0], [0]] := by
    obtain rfl := Except.ok.inj (Except.ok.inj hx)
    obtain ⟨-, rfl⟩ := Prod.mk.inj (Except.ok.inj ha)
    exact ⟨_, _, rfl, rfl⟩
  obtain ⟨second, c, hc, hsecond⟩ : ∃ second c, b.pull = .ok (some (.data second), c) ∧
      second.map (·.values.keys) = [[1000], [1000]] := by
    obtain rfl := Except.ok.inj (Except.ok.inj hx)
    obtain ⟨-, rfl⟩ := Prod.mk.inj (Except.ok.inj ha)
    obtain ⟨-, rfl⟩ := Prod.mk.inj (Except.ok.inj hb)
    exact ⟨_, _, rfl, rfl⟩
  have attends : x.Attends [.info "beat", .data first, .data second] false c := .told (.told (.told .here ha) hb) hc
  have builtin : ∀ p ∈ Plan.sums.expressions, ∃ f q, p.expression = Function.toExpression f q := by
    intro p hp
    obtain rfl := List.mem_singleton.mp hp
    exact ⟨.runningSum, "cpu", rfl⟩
  obtain ⟨windows, cut, hdata, -, hapart⟩ := results_stay_in_their_windows builtin hx attends
  obtain rfl := Except.ok.inj cut
  obtain ⟨i, w, delay, d, hw, replied, -, hdrawn⟩ := hdata second (by simp)
  have happart : ∀ t, ¬((StreamEvent.data first).Stamps t ∧ (StreamEvent.data second).Stamps t) := by
    simpa using (List.pairwise_cons.mp (List.pairwise_cons.mp hapart).2).1
  exact ⟨x, c, first, second, hx, attends, hfirst, hsecond, ⟨i, w, delay, d, hw, replied, hdrawn⟩, happart⟩

end SeriesStream
