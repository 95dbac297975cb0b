import Mathlib.Data.List.Forall2
import SeriesStream.Proofs.Carried

namespace SeriesStream

theorem addUp_of_gap (total : Float) (t : Int) {v : Float} (h : v.isNaN = true) : addUp total t v = (total, none) := by
  rw [addUp, if_pos h]

theorem addUp_of_number (total : Float) (t : Int) {v : Float} (h : v.isNaN = false) :
    addUp total t v = (total + v, some (total + v)) := by
  rw [addUp, h]
  rfl

theorem subtractLast_of_gap (last : Option Float) (t : Int) {v : Float} (h : v.isNaN = true) :
    subtractLast last t v = (last, none) := by
  rw [subtractLast, if_pos h]

theorem subtractLast_of_number (last : Option Float) (t : Int) {v : Float} (h : v.isNaN = false) :
    subtractLast last t v = (some v, last.map (v - ·)) := by
  rw [subtractLast, h]
  rfl

namespace Samples

def withoutGaps (s : Samples) : Samples := s.filter fun _ v => !v.isNaN

theorem isNaN_of_mem_withoutGaps (s : Samples) : ∀ e ∈ s.withoutGaps.entries, e.2.isNaN = false := by
  intro e he
  simpa only [Bool.not_eq_true'] using (List.mem_filter.mp he).2

theorem scan_addUp_withoutGaps (s : Samples) (total : Float) : s.withoutGaps.scan addUp total = s.scan addUp total :=
  s.scan_filter (fun total t v hv => addUp_of_gap total t (by simpa only [Bool.not_eq_false'] using hv)) total

theorem scan_subtractLast_withoutGaps (s : Samples) (last : Option Float) :
    s.withoutGaps.scan subtractLast last = s.scan subtractLast last :=
  s.scan_filter (fun last t v hv => subtractLast_of_gap last t (by simpa only [Bool.not_eq_false'] using hv)) last

theorem restrict_withoutGaps (s : Samples) (a b : Int) : s.withoutGaps.restrict a b = (s.restrict a b).withoutGaps := by
  refine OrderedMap.ext ?_
  simp only [restrict, withoutGaps, OrderedMap.filter, List.filter_filter, Bool.and_comm]

end Samples

/-- The series without its samples of NaN. -/
def TimeSeries.withoutGaps (s : TimeSeries) : TimeSeries := ⟨s.tags, s.values.withoutGaps⟩

/-- The data without any sample of NaN. -/
def RawData.withoutGaps (d : RawData) : RawData := d.mapValues (·.map TimeSeries.withoutGaps)

theorem RawData.seriesOf_withoutGaps (d : RawData) (q : BaseQuery) :
    d.withoutGaps.seriesOf q = (d.seriesOf q).map TimeSeries.withoutGaps := by
  simp only [seriesOf, withoutGaps, OrderedMap.getD, OrderedMap.get?_mapValues]
  cases d.get? q <;> rfl

section

variable {w : Window} (h : w.start ≤ w.stop) (m : OrderedMap TagSet Float) (s : TimeSeries)

include h

theorem runningSumOf_withoutGaps : runningSumOf w m s.withoutGaps = runningSumOf w m s := by
  simp only [runningSumOf, TimeSeries.withoutGaps, Samples.between_eq _ h, Samples.restrict_withoutGaps, bind,
    Except.bind, Samples.scan_addUp_withoutGaps]

theorem deltaOf_withoutGaps : deltaOf w m s.withoutGaps = deltaOf w m s := by
  simp only [deltaOf, TimeSeries.withoutGaps, Samples.between_eq _ h, Samples.restrict_withoutGaps, bind,
    Except.bind, Samples.scan_subtractLast_withoutGaps]

end

theorem throughSeries_map {σ : Type} {f : σ → TimeSeries → Except Fault (σ × TimeSeries)}
    {g : TimeSeries → TimeSeries} (h : ∀ state s, f state (g s) = f state s) (state : σ) (series : List TimeSeries) :
    throughSeries f state (series.map g) = throughSeries f state series := by
  induction series generalizing state with
  | nil => rfl
  | cons s rest ih => simp only [List.map_cons, throughSeries, h, ih]

theorem Function.evaluate_withoutGaps {f : Function} (hf : f ≠ .raw) (q : BaseQuery) {w : Window}
    (h : w.start ≤ w.stop) (d : RawData) (state : CarriedState) :
    (f.toExpression q).evaluate w d.withoutGaps state = (f.toExpression q).evaluate w d state := by
  cases f with
  | raw => exact absurd rfl hf
  | runningSum =>
    simp only [toExpression, RawData.seriesOf_withoutGaps, throughSeries_map (runningSumOf_withoutGaps h)]
  | delta =>
    simp only [toExpression, RawData.seriesOf_withoutGaps, throughSeries_map (deltaOf_withoutGaps h)]

/-- The samples of the window that are not NaN. -/
def TimeSeries.numbers (s : TimeSeries) (w : Window) : List (Int × Float) :=
  s.values.entries.filter fun e => w.contains e.1 && !e.2.isNaN

/-- What an expression tells of some numbers and carries on from what it carried to them: the sums, from left to
right, of what was carried and the numbers up to each of them. -/
structure SumsUp (carried : Option Float) (numbers : List (Int × Float)) (next : Option Float)
    (told : List (Int × Float)) : Prop where
  sums : ∀ i : Nat, told[i]? = numbers[i]?.map fun e =>
    (e.1, ((numbers.take (i + 1)).map (·.2)).foldl (· + ·) (carried.getD 0.0))
  total : next = some ((numbers.map (·.2)).foldl (· + ·) (carried.getD 0.0))

/-- Likewise of the differences: from each number, the one before it, which for the first is the number carried.
If none was carried, nothing is told of the first. -/
structure Subtracts (carried : Option Float) (numbers : List (Int × Float)) (next : Option Float)
    (told : List (Int × Float)) : Prop where
  times : told.map (·.1) = (numbers.drop (if carried.isSome then 0 else 1)).map (·.1)
  differences : told = List.zipWith (fun e before => (e.1, e.2 - before))
    (numbers.drop (if carried.isSome then 0 else 1)) (carried.toList ++ numbers.map (·.2))
  last : next = (carried.toList ++ numbers.map (·.2)).getLast?

/-- Over the series of a query, an expression tells of the numbers of each series by this law, with what it
carries for the tags of the series, and what it carries for other tags stays. -/
def Function.Obeys (f : Function) (law : Option Float → List (Int × Float) → Option Float → List (Int × Float) → Prop)
    (q : BaseQuery) (w : Window) (d : RawData) (state : CarriedState) : Prop :=
  ∃ series carried, (f.toExpression q).evaluate w d state = .ok (.ok ⟨series, .totals carried⟩) ∧
    List.Forall₂ (fun s told => told.tags = s.tags ∧
      law (state.byTags.get? s.tags) (s.numbers w) (carried.get? s.tags) told.values.entries) (d.seriesOf q) series ∧
    ∀ tags, (∀ s ∈ d.seriesOf q, tags ≠ s.tags) → carried.get? tags = state.byTags.get? tags

section

variable {entries : List (Int × Float)} (numbers : ∀ e ∈ entries, e.2.isNaN = false)

include numbers

theorem addUp_over_only_numbers (total : Float) :
    (∀ i : Nat, (scanEntries addUp total entries).2[i]? = entries[i]?.map fun e =>
      (e.1, ((entries.take (i + 1)).map (·.2)).foldl (· + ·) total)) ∧
    (scanEntries addUp total entries).1 = (entries.map (·.2)).foldl (· + ·) total := by
  induction entries generalizing total with
  | nil => exact ⟨fun _ => rfl, rfl⟩
  | cons e rest ih =>
    obtain ⟨he, hrest⟩ := List.forall_mem_cons.mp numbers
    obtain ⟨hsums, htotal⟩ := ih hrest (total + e.2)
    simp only [scanEntries, addUp_of_number total e.1 he]
    refine ⟨fun i => ?_, htotal⟩
    cases i with
    | zero => rfl
    | succ i => exact hsums i

theorem subtractLast_over_only_numbers (last : Option Float) :
    (scanEntries subtractLast last entries).2 = List.zipWith (fun e before => (e.1, e.2 - before))
      (entries.drop (if last.isSome then 0 else 1)) (last.toList ++ entries.map (·.2)) ∧
    (scanEntries subtractLast last entries).1 = (last.toList ++ entries.map (·.2)).getLast? := by
  induction entries generalizing last with
  | nil => cases last <;> exact ⟨rfl, rfl⟩
  | cons e rest ih =>
    obtain ⟨he, hrest⟩ := List.forall_mem_cons.mp numbers
    obtain ⟨hdifferences, hlast⟩ := ih hrest (some e.2)
    simp only [scanEntries, subtractLast_of_number last e.1 he, hdifferences, hlast]
    cases last with
    | none => exact ⟨rfl, rfl⟩
    | some before => exact ⟨rfl, rfl⟩

end

section

variable {s : Samples} (numbers : ∀ e ∈ s.entries, e.2.isNaN = false) (carried : Option Float)

include numbers

theorem sumsUp_of_numbers :
    SumsUp carried s.entries (some (s.scan addUp (carried.getD 0.0)).1)
      (s.scan addUp (carried.getD 0.0)).2.entries := by
  obtain ⟨hsums, htotal⟩ := addUp_over_only_numbers numbers (carried.getD 0.0)
  exact ⟨hsums, congrArg some htotal⟩

theorem subtracts_of_numbers :
    Subtracts carried s.entries (s.scan subtractLast carried).1 (s.scan subtractLast carried).2.entries := by
  obtain ⟨hdifferences, hlast⟩ := subtractLast_over_only_numbers numbers carried
  refine ⟨?_, hdifferences, hlast⟩
  have hlength : (s.entries.drop (if carried.isSome then 0 else 1)).length ≤
      (carried.toList ++ s.entries.map (·.2)).length := by
    cases carried <;> simp
  calc (s.scan subtractLast carried).2.entries.map (·.1)
    _ = (List.zipWith (fun e before => (e.1, e.2 - before)) (s.entries.drop (if carried.isSome then 0 else 1))
          (carried.toList ++ s.entries.map (·.2))).map (·.1) := congrArg (List.map (·.1)) hdifferences
    _ = ((s.entries.drop (if carried.isSome then 0 else 1)).zip (carried.toList ++ s.entries.map (·.2))).map
          (fun p => p.1.1) := by
        rw [List.map_zipWith, List.map_zip_eq_zipWith]
        rfl
    _ = (s.entries.drop (if carried.isSome then 0 else 1)).map (·.1) := by
        conv_rhs => rw [← List.map_fst_zip hlength, List.map_map]
        rfl

end

section

variable (s : TimeSeries) (w : Window)

theorem TimeSeries.numbers_eq : s.numbers w = (s.values.restrict w.start w.stop).withoutGaps.entries := by
  simp only [numbers, Samples.restrict, Samples.withoutGaps, OrderedMap.filter, List.filter_filter, Window.contains,
    Bool.and_comm]

theorem Function.runningSum_sumsUp (carried : Option Float) :
    SumsUp carried (s.numbers w) (runningSum.onSeries w carried s).1
      (runningSum.onSeries w carried s).2.values.entries := by
  have hsums := sumsUp_of_numbers (s.values.restrict w.start w.stop).isNaN_of_mem_withoutGaps carried
  rw [Samples.scan_addUp_withoutGaps, ← s.numbers_eq] at hsums
  exact hsums

theorem Function.delta_subtracts (carried : Option Float) :
    Subtracts carried (s.numbers w) (delta.onSeries w carried s).1
      (delta.onSeries w carried s).2.values.entries := by
  have hdifferences := subtracts_of_numbers (s.values.restrict w.start w.stop).isNaN_of_mem_withoutGaps carried
  rw [Samples.scan_subtractLast_withoutGaps, ← s.numbers_eq] at hdifferences
  exact hdifferences

end

namespace Function

variable {f : Function} {q : BaseQuery} {w : Window} {d : RawData}

/-- A law for what is made of one series holds over all series of a query when their tags differ. -/
theorem obeys_of_onSeries {law : Option Float → List (Int × Float) → Option Float → List (Int × Float) → Prop}
    (hf : f ≠ .raw)
    (hlaw : ∀ carried s, law carried (s.numbers w) (f.onSeries w carried s).1 (f.onSeries w carried s).2.values.entries)
    (forward : w.start ≤ w.stop) (distinct : (d.seriesOf q).Pairwise fun s s' => s.tags ≠ s'.tags)
    (state : CarriedState) : f.Obeys law q w d state := by
  obtain ⟨state', heval, hstate⟩ := f.evaluate_toExpression state forward distinct
  have hform := hstate.form
  rw [if_neg hf] at hform
  refine ⟨_, state'.byTags, hform ▸ heval, ?_, hstate.others hf⟩
  refine List.forall₂_map_right_iff.mpr (List.forall₂_same.mpr fun s hs => ⟨rfl, ?_⟩)
  rw [hstate.carried s hs]
  exact hlaw _ s

/-- To the expressions that carry numbers, samples of NaN are not there: without them they answer the same and
carry the same on. What they tell of each series of distinct tags are the sums of its numbers, and the differences
of its numbers. -/
theorem gaps_are_passed_over (q : BaseQuery) {w : Window} (forward : w.start ≤ w.stop) (d : RawData)
    (state : CarriedState) :
    (∀ f : Function, f ≠ .raw → ∃ ev, (f.toExpression q).evaluate w d state = .ok (.ok ev) ∧
      (f.toExpression q).evaluate w d.withoutGaps state = .ok (.ok ev)) ∧
    ((d.seriesOf q).Pairwise (fun s s' => s.tags ≠ s'.tags) →
      runningSum.Obeys SumsUp q w d state ∧ delta.Obeys Subtracts q w d state) := by
  constructor
  · intro f hf
    obtain ⟨ev, heval⟩ := f.evaluates_forward q forward d state
    exact ⟨ev, heval, (evaluate_withoutGaps hf q forward d state).trans heval⟩
  · intro distinct
    have hsums := obeys_of_onSeries (by decide) (fun carried s => runningSum_sumsUp s w carried) forward distinct state
    have hdifferences :=
      obeys_of_onSeries (by decide) (fun carried s => delta_subtracts s w carried) forward distinct state
    exact ⟨hsums, hdifferences⟩

/-- Two hosts with gaps before, between and behind their numbers, the second with nothing else. -/
def gappyHosts : RawData := OrderedMap.ofList [("cpu",
  [.ofPoints (.ofPairs [("host", "a")]) [(0, 0.0 / 0.0), (500, 1.5), (700, 0.0 / 0.0), (1200, 4.0), (1900, 0.0 / 0.0)],
    .ofPoints (.ofPairs [("host", "b")]) [(100, 0.0 / 0.0)]])]

/-- Numbers carried for the second of them and for a host that is gone. -/
def carriedBefore : CarriedState :=
  .totals (OrderedMap.ofList [(.ofPairs [("host", "b")], 7.0), (.ofPairs [("host", "gone")], 3.0)])

theorem four_gaps_are_passed_over :
    ∃ ev, (gappyHosts.seriesOf "cpu").map (·.values.entries.length) = [5, 1] ∧
      (gappyHosts.withoutGaps.seriesOf "cpu").map (·.values.entries.length) = [2, 0] ∧
      (delta.toExpression "cpu").evaluate ⟨0, 2000, 1000⟩ gappyHosts carriedBefore = .ok (.ok ev) ∧
      (delta.toExpression "cpu").evaluate ⟨0, 2000, 1000⟩ gappyHosts.withoutGaps carriedBefore = .ok (.ok ev) ∧
      ev.series.map (·.values.entries) = [[(1200, 2.5)], []] ∧
      runningSum.Obeys SumsUp "cpu" ⟨0, 2000, 1000⟩ gappyHosts carriedBefore ∧
      delta.Obeys Subtracts "cpu" ⟨0, 2000, 1000⟩ gappyHosts carriedBefore := by
  have distinct : (gappyHosts.seriesOf "cpu").Pairwise fun s s' => s.tags ≠ s'.tags := by decide
  obtain ⟨told, htold, hvalues⟩ : ∃ told,
      (delta.toExpression "cpu").evaluate ⟨0, 2000, 1000⟩ gappyHosts carriedBefore = .ok (.ok told) ∧
        told.series.map (·.values.entries) = [[(1200, 2.5)], []] := ⟨_, rfl, rfl⟩
  obtain ⟨hsame, hlaws⟩ :=
    gaps_are_passed_over "cpu" (w := ⟨0, 2000, 1000⟩) (by decide) gappyHosts carriedBefore
  obtain ⟨ev, hev, hwithout⟩ := hsame .delta (by decide)
  obtain rfl := Except.ok.inj (Except.ok.inj (htold.symm.trans hev))
  obtain ⟨hsums, hdifferences⟩ := hlaws distinct
  exact ⟨told, rfl, rfl, hev, hwithout, hvalues, hsums, hdifferences⟩

end Function

end SeriesStream
