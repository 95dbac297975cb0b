import SeriesStream.Http.Server
import SeriesStream.Proofs.Carried
import SeriesStream.Proofs.Harvest

namespace SeriesStream

namespace Store

/-- All that is stored, as one answer to all queries. -/
def contents (s : Store) : RawData := s.series.mapValues fun m => m.entries.map fun e => ⟨e.1, e.2⟩

theorem contents_seriesOf (s : Store) (q : BaseQuery) :
    s.contents.seriesOf q = (s.seriesOf q).entries.map fun e => ⟨e.1, e.2⟩ := by
  simp only [contents, RawData.seriesOf, OrderedMap.getD, OrderedMap.get?_mapValues, seriesOf]
  cases s.series.get? q <;> rfl

theorem answer_seriesOf (s : Store) {queries : List BaseQuery} {q : BaseQuery} (h : q ∈ queries)
    (w : Window) : (s.answer ⟨queries, w⟩).seriesOf q =
      (s.seriesOf q).entries.map fun e => ⟨e.1, e.2.restrict w.start w.stop⟩ := by
  have hfound := OrderedMap.get?_ofList_map (fun q => s.select q w.start w.stop) h
  simp only [answer, RawData.seriesOf, OrderedMap.getD, hfound]
  rfl

theorem distinct_tags (s : Store) (q : BaseQuery) (part : Samples → Samples) :
    ((s.seriesOf q).entries.map fun e => (⟨e.1, part e.2⟩ : TimeSeries)).Pairwise
      fun s s' => s.tags ≠ s'.tags := by
  refine List.pairwise_map.mpr ((s.seriesOf q).ascending.imp fun {d e} hlt heq => ?_)
  have htags : d.1 = e.1 := heq
  have hself : compare e.1 e.1 = .eq := Std.ReflCmp.compare_self
  rw [htags, hself] at hlt
  cases hlt

end Store

/-- The expression, evaluated once on all that is stored, from empty state, over the whole span, has the
value `v` at `t` under these tags. -/
def PlannedExpression.YieldsAtOnce (p : PlannedExpression) (store : Store) (span : Window)
    (tags : TagSet) (t : Int) (v : Float) : Prop :=
  ∃ ev, p.expression.evaluate span store.contents .empty = .ok (.ok ev) ∧
    ∃ s ∈ ev.series, s.tags = tags ∧ (t, v) ∈ s.values.entries

theorem evaluate_contents (f : Function) (q : BaseQuery) (store : Store) {span : Window}
    (h : span.start ≤ span.stop) :
    ∃ state, (f.toExpression q).evaluate span store.contents .empty = .ok (.ok
      ⟨(store.seriesOf q).entries.map fun e => (f.onSeries span none ⟨e.1, e.2⟩).2, state⟩) := by
  have hseries := store.contents_seriesOf q
  have hdistinct := store.distinct_tags q id
  obtain ⟨state, hevaluate, _⟩ := f.evaluate_toExpression (d := store.contents) .empty h
    (by rw [hseries]; exact hdistinct)
  rw [hseries, List.map_map] at hevaluate
  exact ⟨state, hevaluate⟩

theorem yieldsAtOnce_iff {p : PlannedExpression} {f : Function} {q : BaseQuery}
    (hp : p.expression = f.toExpression q) (store : Store) {span : Window} (h : span.start ≤ span.stop)
    (tags : TagSet) (t : Int) (v : Float) :
    p.YieldsAtOnce store span tags t v ↔ ∃ samples, (tags, samples) ∈ (store.seriesOf q).entries ∧
      (t, v) ∈ (f.onSamples none (samples.restrict span.start span.stop)).2.entries := by
  obtain ⟨state, hevaluate⟩ := evaluate_contents f q store h
  unfold PlannedExpression.YieldsAtOnce
  rw [hp, hevaluate]
  constructor
  · rintro ⟨ev, hev, s, hs, rfl, hv⟩
    obtain rfl := Except.ok.inj (Except.ok.inj hev)
    obtain ⟨e, he, rfl⟩ := List.mem_map.mp hs
    exact ⟨e.2, he, hv⟩
  · rintro ⟨samples, hsamples, hv⟩
    exact ⟨_, rfl, _, List.mem_map_of_mem hsamples, rfl, hv⟩

/-- The slot applies a function to stored series, and what it carries for each acts like what the
function carries over the samples from `a` up to `t`. -/
def Slot.Tracks (slot : Slot) (store : Store) (a t : Int) (queries : List BaseQuery) : Prop :=
  ∃ f q, slot.planned.expression = Function.toExpression f q ∧ q ∈ queries ∧
    ∀ e ∈ (store.seriesOf q).entries, f.onSamples (slot.state.byTags.get? e.1) =
      f.onSamples (f.onSamples none (e.2.restrict a t)).1

theorem tracks_empty {p : PlannedExpression} {f : Function} {q : BaseQuery} {queries : List BaseQuery}
    (hp : p.expression = f.toExpression q) (hq : q ∈ queries) (store : Store) (a : Int) :
    Slot.Tracks ⟨p, .empty⟩ store a a queries :=
  ⟨f, q, hp, hq, fun e _ => (f.onSamples_carried_empty none (e.2.restrict_empty a)).symm⟩

/-- On a window a slot has the values that its expression has there at once, and goes on behind it. -/
theorem evaluate_of_tracks {slot : Slot} {store : Store} {a b : Int} {queries : List BaseQuery}
    {w : Window} (proper : w.Proper) (h : slot.Tracks store a w.start queries) (ha : a ≤ w.start)
    (hb : w.stop ≤ b) (step : Int) :
    ∃ ev, slot.evaluate ⟨w, store.answer ⟨queries, w⟩⟩ = .ok (.ok ev) ∧
      Slot.Tracks { slot with state := ev.state } store a w.stop queries ∧
      ∀ tags t v, (∃ s ∈ ev.series, s.tags = tags ∧ (t, v) ∈ s.values.entries) ↔
        slot.planned.YieldsAtOnce store ⟨a, b, step⟩ tags t v ∧ w.start ≤ t ∧ t < w.stop := by
  obtain ⟨f, q, hp, hq, hcarried⟩ := h
  have hlt := proper.start_lt_stop
  have hseries := store.answer_seriesOf hq w
  have hdistinct := store.distinct_tags q fun samples => samples.restrict w.start w.stop
  obtain ⟨state, hevaluate, hstate⟩ := f.evaluate_toExpression (d := store.answer ⟨queries, w⟩)
    slot.state (Int.le_of_lt hlt) (by rw [hseries]; exact hdistinct)
  rw [hseries] at hevaluate hstate
  rw [← hp] at hevaluate
  refine ⟨_, hevaluate, ⟨f, q, hp, hq, fun e he => ?_⟩, fun tags t v => ?_⟩
  -- what is carried up to the window and the window itself make up one longer part of the samples
  · have hnext := hstate.carried _ (List.mem_map_of_mem he)
    simp only [Function.onSeries, Samples.restrict_restrict, hcarried e he] at hnext
    rw [hnext, (f.onSamples_append none (e.2.entries_restrict ha (Int.le_of_lt hlt))).1]
  · rw [yieldsAtOnce_iff hp store (show a ≤ b by omega)]
    constructor
    · rintro ⟨s, hs, rfl, hv⟩
      obtain ⟨stored, hstored, rfl⟩ := List.mem_map.mp hs
      obtain ⟨e, he, rfl⟩ := List.mem_map.mp hstored
      simp only [Function.onSeries, Samples.restrict_restrict, hcarried e he] at hv
      obtain ⟨hall, hin⟩ := (f.mem_onSamples_window e.2 ha (Int.le_of_lt hlt) hb t v).mp hv
      exact ⟨⟨e.2, he, hall⟩, hin⟩
    · rintro ⟨⟨samples, hsamples, hall⟩, hin⟩
      refine ⟨_, List.mem_map_of_mem (List.mem_map_of_mem hsamples), rfl, ?_⟩
      simp only [Function.onSeries, Samples.restrict_restrict, hcarried _ hsamples]
      exact (f.mem_onSamples_window samples ha (Int.le_of_lt hlt) hb t v).mpr ⟨hall, hin⟩

/-- A value on the window's grid that is a number is not left out. -/
theorem mem_shown_iff {slot : Slot} {c : Chunk} {series : List TimeSeries} (proper : c.window.Proper)
    (hearliest : Instant.earliest ≤ c.window.start) (hlatest : c.window.stop ≤ Instant.latest)
    {tags : TagSet} {t : Int} {v : Float} (hstart : c.window.start ≤ t) (hstop : t < c.window.stop)
    (hgrid : c.window.step ∣ t) (hnumber : v.isNaN = false) :
    (∃ r ∈ slot.shown c series, r.tags = tags ∧ (t, v) ∈ r.values.entries) ↔
      ∃ s ∈ series, s.tags = tags ∧ (t, v) ∈ s.values.entries := by
  constructor
  · rintro ⟨r, hr, htags, hv⟩
    obtain ⟨s, hs, rfl⟩ := List.mem_map.mp hr
    exact ⟨s, (List.mem_filter.mp hs).1, htags, hv⟩
  · rintro ⟨s, hs, htags, hv⟩
    have hvalue : s.valueAt? t = some v := OrderedMap.get?_eq_some_iff.mpr hv
    have hblank : s.blank c.window = false := (blank_eq_false_iff proper hearliest hlatest).mpr
      ⟨t, v, hstart, hstop, hgrid, hvalue, hnumber⟩
    exact ⟨_, List.mem_map_of_mem (List.mem_filter.mpr ⟨hs, by simp [hblank]⟩), htags, hv⟩

/-- Some result shows the value `v` at `t` under this name and these tags. -/
def Shows (results : List WindowSeries) (name : String) (tags : TagSet) (t : Int) (v : Float) : Prop :=
  ∃ r ∈ results, r.expression = name ∧ r.tags = tags ∧ (t, v) ∈ r.values.entries

theorem shows_append {results more : List WindowSeries} {name : String} {tags : TagSet} {t : Int}
    {v : Float} : Shows (results ++ more) name tags t v ↔
      Shows results name tags t v ∨ Shows more name tags t v := by
  simp only [Shows, List.mem_append, or_and_right, exists_or]

theorem shows_shown {slot : Slot} {c : Chunk} {series : List TimeSeries} {name : String} {tags : TagSet}
    {t : Int} {v : Float} : Shows (slot.shown c series) name tags t v ↔
      slot.planned.name = name ∧ ∃ r ∈ slot.shown c series, r.tags = tags ∧ (t, v) ∈ r.values.entries := by
  constructor
  · rintro ⟨r, hr, rfl, htags, hv⟩
    obtain ⟨s, _, rfl⟩ := List.mem_map.mp hr
    exact ⟨rfl, _, hr, htags, hv⟩
  · rintro ⟨rfl, r, hr, htags, hv⟩
    obtain ⟨s, _, rfl⟩ := List.mem_map.mp hr
    exact ⟨_, hr, rfl, htags, hv⟩

/-- One of the expressions has this name and yields the value at once. -/
def YieldAtOnce (planned : List PlannedExpression) (store : Store) (span : Window) (name : String)
    (tags : TagSet) (t : Int) (v : Float) : Prop :=
  ∃ p ∈ planned, p.name = name ∧ p.YieldsAtOnce store span tags t v

section

variable {store : Store} {a b : Int} {queries : List BaseQuery}

/-- On a window all slots together show the values of its grid that their expressions have there at once. -/
theorem allYield_of_tracks {w : Window} {slots : List Slot} (proper : w.Proper)
    (hearliest : Instant.earliest ≤ w.start) (hlatest : w.stop ≤ Instant.latest) (ha : a ≤ w.start)
    (hb : w.stop ≤ b) (h : ∀ slot ∈ slots, slot.Tracks store a w.start queries) (step : Int) :
    ∃ results next, Slot.AllYield ⟨w, store.answer ⟨queries, w⟩⟩ slots results next ∧
      (∀ slot ∈ next, slot.Tracks store a w.stop queries) ∧
      ∀ name tags t v, w.step ∣ t → v.isNaN = false → (Shows results name tags t v ↔
        YieldAtOnce (slots.map (·.planned)) store ⟨a, b, step⟩ name tags t v ∧ w.start ≤ t ∧ t < w.stop) := by
  induction slots with
  | nil => exact ⟨[], [], .nil, by simp, by simp [Shows, YieldAtOnce]⟩
  | cons slot slots ih =>
    obtain ⟨hslot, hslots⟩ := List.forall_mem_cons.mp h
    obtain ⟨ev, hevaluate, htracks, hvalues⟩ := evaluate_of_tracks proper hslot ha hb step
    obtain ⟨results, next, hyield, hnext, hresults⟩ := ih hslots
    refine ⟨_, _, .cons hevaluate hyield, List.forall_mem_cons.mpr ⟨htracks, hnext⟩, ?_⟩
    intro name tags t v hgrid hnumber
    rw [shows_append, hresults name tags t v hgrid hnumber, shows_shown]
    constructor
    · rintro (⟨rfl, hshown⟩ | ⟨⟨p, hp, hname, hv⟩, hin⟩)
      · have hin : w.start ≤ t ∧ t < w.stop := by
          obtain ⟨r, hr, htags, hv⟩ := hshown
          obtain ⟨s, hs, rfl⟩ := List.mem_map.mp hr
          exact ((hvalues tags t v).mp ⟨s, (List.mem_filter.mp hs).1, htags, hv⟩).2
        rw [mem_shown_iff proper hearliest hlatest hin.1 hin.2 hgrid hnumber, hvalues] at hshown
        exact ⟨⟨slot.planned, by simp, rfl, hshown.1⟩, hin⟩
      · exact ⟨⟨p, List.mem_cons_of_mem _ hp, hname, hv⟩, hin⟩
    · rintro ⟨⟨p, hp, hname, hv⟩, hin⟩
      rcases List.mem_cons.mp hp with rfl | hp
      · left
        rw [mem_shown_iff proper hearliest hlatest hin.1 hin.2 hgrid hnumber, hvalues]
        exact ⟨hname, hv, hin⟩
      · exact Or.inr ⟨⟨p, hp, hname, hv⟩, hin⟩

/-- All windows of a chain yield from a store, and each batch shows what the expressions have on its
window at once. -/
theorem yields_of_tracks {windows : List Window} {t₀ step : Int} (chain : Chain t₀ windows b) {s : Source}
    (hs : s.backend = store.toBackend) (hearliest : Instant.earliest ≤ a) (hlatest : b ≤ Instant.latest)
    (ha : a ≤ t₀) (hstep : ∀ w ∈ windows, w.step = step) (n : Nat) {slots : List Slot}
    (h : ∀ slot ∈ slots, slot.Tracks store a t₀ s.queries) :
    ∃ batches final, s.Yields n slots windows batches final ∧ ∀ batch ∈ batches,
      ∀ name tags t v, step ∣ t → v.isNaN = false → (Shows batch.results name tags t v ↔
        YieldAtOnce (slots.map (·.planned)) store ⟨a, b, step⟩ name tags t v ∧
          batch.window.start ≤ t ∧ t < batch.window.stop) := by
  induction chain generalizing n slots with
  | nil => exact ⟨[], slots, .nil n slots, by simp⟩
  | @cons w ws b proper rest ih =>
    obtain ⟨hw, hws⟩ := List.forall_mem_cons.mp hstep
    have hlt := proper.start_lt_stop
    have hle := rest.le
    obtain ⟨results, next, hyield, hnext, hresults⟩ :=
      allYield_of_tracks proper (by omega) (by omega) ha hle h step
    obtain ⟨batches, final, hyields, hbatches⟩ := ih hlatest (by omega) hws (n + 1) hnext
    have hreply : s.reply n w = ⟨some 0, .data (store.answer ⟨s.queries, w⟩)⟩ := by
      rw [Source.reply, hs]
      rfl
    rw [hyield.planned_eq] at hbatches
    rw [hw] at hresults
    exact ⟨_, final, .cons hreply (Nat.zero_le _) hyield hyields,
      List.forall_mem_cons.mpr ⟨hresults, hbatches⟩⟩

end

end SeriesStream
