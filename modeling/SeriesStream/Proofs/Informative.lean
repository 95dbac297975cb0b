import SeriesStream.Evaluator
import SeriesStream.Proofs.Lookup
import SeriesStream.Proofs.Partition

namespace SeriesStream

/-- The first multiple of `step` at or after `t`. -/
def Instant.ceiling (t step : Int) : Int := Instant.floor (t + step - 1) step

theorem le_ceiling {t step : Int} (h : 0 < step) : t ≤ Instant.ceiling t step := by
  have hlt := Int.emod_lt_of_pos (t + step - 1) h
  unfold Instant.ceiling Instant.floor
  omega

theorem ceiling_le {t u step : Int} (h : 0 < step) (hu : step ∣ u) (htu : t ≤ u) :
    Instant.ceiling t step ≤ u := by
  have hceiling := floor_le (t := t + step - 1) h
  have hdvd := step_dvd_floor (t + step - 1) step
  unfold Instant.ceiling
  -- the next multiple behind `u` is a whole step away
  rcases Int.lt_or_le u (Instant.floor (t + step - 1) step) with hlt | hle
  · have hfar : step ≤ Instant.floor (t + step - 1) step - u :=
      Int.le_of_dvd (by omega) (Int.dvd_sub hdvd hu)
    omega
  · exact hle

theorem ceiling_of_dvd {t step : Int} (h : 0 < step) (ht : step ∣ t) : Instant.ceiling t step = t :=
  Int.le_antisymm (ceiling_le h ht (Int.le_refl t)) (le_ceiling h)

theorem ceiling_of_not_dvd {t step : Int} (h : 0 < step) (ht : ¬step ∣ t) :
    Instant.ceiling t step = t + (step - t % step) := by
  have hnonneg := Int.emod_nonneg t (Int.ne_of_gt h)
  have hrest : t % step ≠ 0 := fun hzero => ht (Int.dvd_of_emod_eq_zero hzero)
  have hfloor : t + (step - t % step) = Instant.floor t step + step := by
    unfold Instant.floor
    omega
  have hdvd := step_dvd_floor t step
  have hge := le_ceiling (t := t) h
  have hlt := Int.emod_lt_of_pos t h
  have hle : Instant.ceiling t step ≤ Instant.floor t step + step :=
    ceiling_le h (Int.dvd_add hdvd (Int.dvd_refl step)) (by omega)
  have hfar : step ≤ Instant.ceiling t step - Instant.floor t step :=
    Int.le_of_dvd (by omega) (Int.dvd_sub (step_dvd_floor _ _) hdvd)
  omega

namespace Grid

theorem pop?_of_lt {t stop step : Int} (h : t < stop) :
    pop? ⟨some t, stop, step⟩ = some (t, ⟨Instant.shown? (t + step), stop, step⟩) := by
  simp [pop?, h]

theorem allWithin_of_none (p : Int → Bool) (n : Nat) (stop step : Int) :
    allWithin p n ⟨none, stop, step⟩ = true := by
  cases n <;> rfl

/-- A grid that begins at `t` goes through `t`, `t + step` and so on; where the clock ends the grid,
its end was reached. -/
theorem allWithin_iff {t stop step : Int} {p : Int → Bool} (n : Nat) (hstep : 0 < step)
    (hearliest : Instant.earliest ≤ t) (hstop : stop ≤ Instant.latest) :
    allWithin p n ⟨some t, stop, step⟩ = true ↔ ∀ i < n, t + i * step < stop → p (t + i * step) := by
  induction n generalizing t with
  | zero => simp [allWithin]
  | succ n ih =>
    by_cases hlt : t < stop
    · have hrest : allWithin p n ⟨Instant.shown? (t + step), stop, step⟩ = true ↔
          ∀ i < n, t + step + i * step < stop → p (t + step + i * step) := by
        by_cases hshown : Instant.Shown (t + step)
        · simp only [Instant.shown?, hshown, ↓reduceIte]
          exact ih (by omega)
        · simp only [Instant.shown?, hshown, ↓reduceIte, allWithin_of_none, true_iff]
          intro i _ hi
          have hpos : 0 ≤ (i : Int) * step := Int.mul_nonneg (by omega) (by omega)
          unfold Instant.Shown at hshown
          omega
      have hshift (i : Nat) : t + (i + 1 : Nat) * step = t + step + i * step := by
        rw [Int.natCast_succ, Int.add_mul]
        omega
      rw [allWithin, pop?_of_lt hlt]
      simp only [Bool.and_eq_true, hrest]
      constructor
      · rintro ⟨hp, hall⟩ i hi hin
        cases i with
        | zero => simpa using hp
        | succ i =>
          rw [hshift] at hin ⊢
          exact hall i (by omega) hin
      · intro hall
        refine ⟨by simpa using hall 0 (by omega) (by simpa using hlt), fun i hi hin => ?_⟩
        rw [← hshift] at hin ⊢
        exact hall (i + 1) (by omega) hin
    · have hpop : pop? ⟨some t, stop, step⟩ = none := by simp [pop?, hlt]
      simp only [allWithin, hpop, true_iff]
      intro i _ hi
      have hpos : 0 ≤ (i : Int) * step := Int.mul_nonneg (by omega) (by omega)
      omega

/-- The whole grid is looked at: its multiples of `step` from `t` on are all those before `stop`. -/
theorem all_iff {t stop step : Int} {p : Int → Bool} (hstep : 0 < step) (hdvd : step ∣ t)
    (hearliest : Instant.earliest ≤ t) (hstop : stop ≤ Instant.latest) :
    all ⟨some t, stop, step⟩ p = true ↔ ∀ u, t ≤ u → u < stop → step ∣ u → p u = true := by
  rw [all, allWithin_iff _ hstep hearliest hstop]
  constructor
  · intro hall u hle hlt hu
    obtain ⟨i, hi⟩ : step ∣ u - t := Int.dvd_sub hu hdvd
    have hnonneg : 0 ≤ i := by
      rcases Int.lt_or_le i 0 with hneg | hnonneg
      · have := Int.mul_neg_of_pos_of_neg hstep hneg
        omega
      · exact hnonneg
    have hu' : t + (i.toNat : Int) * step = u := by
      rw [Int.toNat_of_nonneg hnonneg, Int.mul_comm]
      omega
    have hbound : i + 1 ≤ (stop - t + step - 1) / step := by
      apply Int.le_ediv_of_mul_le hstep
      rw [Int.add_mul, Int.mul_comm]
      omega
    have hp := hall i.toNat (by simp only [bound]; omega) (by rw [hu']; exact hlt)
    rwa [hu'] at hp
  · intro hall i _ hi
    have hpos : 0 ≤ (i : Int) * step := Int.mul_nonneg (by omega) (by omega)
    exact hall _ (by omega) hi (Int.dvd_add hdvd (Int.dvd_mul_left _ _))

/-- The grid from the first multiple at or after `start` goes through all multiples in the range, also when no
clock shows its first or its next instant. -/
theorem all_ceiling_iff {start stop step : Int} {p : Int → Bool} (hpos : 0 < step)
    (hstart : Instant.earliest ≤ start) (hstop : stop ≤ Instant.latest) :
    all ⟨Instant.shown? (Instant.ceiling start step), stop, step⟩ p = true ↔
      ∀ u, start ≤ u → u < stop → step ∣ u → p u = true := by
  have hceiling := le_ceiling (t := start) hpos
  by_cases hshown : Instant.Shown (Instant.ceiling start step)
  · have hdvd : step ∣ Instant.ceiling start step := step_dvd_floor _ _
    rw [Instant.shown?_eq_some_iff.mpr ⟨hshown, rfl⟩, all_iff hpos hdvd hshown.1 hstop]
    constructor
    · intro hall u hle hlt hdvd
      exact hall u (ceiling_le hpos hdvd hle) hlt hdvd
    · intro hall u hle hlt hdvd
      exact hall u (by omega) hlt hdvd
  · -- past the clock there is nothing left of the range
    have hpast : Instant.latest < Instant.ceiling start step := by
      unfold Instant.Shown at hshown
      omega
    have hnone : Instant.shown? (Instant.ceiling start step) = none :=
      Instant.shown?_eq_none_iff.mpr (Or.inr hpast)
    simp only [hnone, all, allWithin_of_none, true_iff]
    intro u hle hlt hdvd
    have := ceiling_le hpos hdvd hle
    omega

end Grid

/-- The series has a number somewhere on the window's own grid. -/
def TimeSeries.Informative (s : TimeSeries) (w : Window) : Prop :=
  ∃ t v, w.start ≤ t ∧ t < w.stop ∧ w.step ∣ t ∧ s.valueAt? t = some v ∧ v.isNaN = false

theorem TimeSeries.informative_iff {s : TimeSeries} {w : Window} : s.Informative w ↔
    ∃ e ∈ s.values.entries, w.start ≤ e.1 ∧ e.1 < w.stop ∧ w.step ∣ e.1 ∧ e.2.isNaN = false := by
  constructor
  · rintro ⟨t, v, hstart, hstop, hgrid, hv, hnumber⟩
    exact ⟨(t, v), OrderedMap.get?_eq_some_iff.mp hv, hstart, hstop, hgrid, hnumber⟩
  · rintro ⟨⟨t, v⟩, he, hstart, hstop, hgrid, hnumber⟩
    exact ⟨t, v, hstart, hstop, hgrid, OrderedMap.get?_eq_some_iff.mpr he, hnumber⟩

instance (s : TimeSeries) (w : Window) : Decidable (s.Informative w) :=
  decidable_of_iff' _ TimeSeries.informative_iff

/-- A series is not informative if all it has on the grid is NaN. -/
theorem TimeSeries.not_informative_iff {s : TimeSeries} {w : Window} : ¬s.Informative w ↔
    ∀ u, w.start ≤ u → u < w.stop → w.step ∣ u → (s.valueAt? u).all Float.isNaN = true := by
  constructor
  · intro hnot u hle hlt hdvd
    cases hv : s.valueAt? u with
    | none => rfl
    | some v =>
      cases hnan : v.isNaN with
      | true => simpa using hnan
      | false => exact absurd ⟨u, v, hle, hlt, hdvd, hv, hnan⟩ hnot
  · rintro hall ⟨u, v, hle, hlt, hdvd, hv, hnan⟩
    have hgrid := hall u hle hlt hdvd
    rw [hv, Option.all_some, hnan] at hgrid
    cases hgrid

section

variable {start step : Int} (stop : Int) (hpos : 0 < step)

include hpos

theorem stepGrid_of_dvd (hdvd : step ∣ start) : stepGrid start stop step = .ok ⟨some start, stop, step⟩ := by
  have hguard : ¬(step = 0 ∨ start = Instant.earliest ∧ step = -1) := by omega
  have hrest : start % step = 0 := Int.emod_eq_zero_of_dvd hdvd
  simp [stepGrid, remainder, hguard, hrest, bind, Except.bind, pure, Except.pure]

theorem stepGrid_of_not_dvd (hstep : step ≤ Instant.latest) (hdvd : ¬step ∣ start) :
    stepGrid start stop step = .ok ⟨Instant.shown? (start + (step - start % step)), stop, step⟩ := by
  have hguard : ¬(step = 0 ∨ start = Instant.earliest ∧ step = -1) := by omega
  have hrest : start % step ≠ 0 := fun hzero => hdvd (Int.dvd_of_emod_eq_zero hzero)
  have hnonneg := Int.emod_nonneg start (Int.ne_of_gt hpos)
  have hlt := Int.emod_lt_of_pos start hpos
  -- the way to the next multiple is shorter than the step
  have hgap : Instant.shown? (step - start % step) = some (step - start % step) := by
    refine Instant.shown?_eq_some_iff.mpr ⟨?_, rfl⟩
    simp only [Instant.Shown, Instant.earliest]
    omega
  simp only [stepGrid, remainder, hguard, hrest, hgap, bind, Except.bind, pure, Except.pure, ↓reduceIte]

/-- Wherever the range begins, its grid begins at the first multiple of the step from there on, if a clock
shows it. -/
theorem stepGrid_eq (hstart : Instant.Shown start) (hstep : step ≤ Instant.latest) :
    stepGrid start stop step = .ok ⟨Instant.shown? (Instant.ceiling start step), stop, step⟩ := by
  by_cases hdvd : step ∣ start
  · have hshown : Instant.shown? start = some start := Instant.shown?_eq_some_iff.mpr ⟨hstart, rfl⟩
    rw [stepGrid_of_dvd stop hpos hdvd, ceiling_of_dvd hpos hdvd, hshown]
  · rw [stepGrid_of_not_dvd stop hpos hstep hdvd, ceiling_of_not_dvd hpos hdvd]

end

/-- The series has no number on the window's own grid. -/
def TimeSeries.blank (s : TimeSeries) (w : Window) : Bool :=
  Grid.all ⟨some w.start, w.stop, w.step⟩ fun t => (s.valueAt? t).all Float.isNaN

theorem isAllNaN_of_proper (s : TimeSeries) {w : Window} (h : w.Proper) :
    s.isAllNaN w.start w.stop w.step = .ok (s.blank w) := by
  have hpos := h.step_pos
  have hlt := h.start_lt_stop
  simp only [TimeSeries.isAllNaN, stepGrid_of_dvd w.stop hpos h.step_dvd_start, bind, Except.bind, pure, Except.pure]
  rw [if_neg (by omega), if_neg (by omega)]
  rfl

theorem blank_eq_false_iff {s : TimeSeries} {w : Window} (h : w.Proper)
    (hearliest : Instant.earliest ≤ w.start) (hlatest : w.stop ≤ Instant.latest) :
    s.blank w = false ↔ s.Informative w := by
  have hgrid := Grid.all_iff (p := fun t => (s.valueAt? t).all Float.isNaN) h.step_pos h.step_dvd_start
    hearliest hlatest
  rw [← TimeSeries.not_informative_iff] at hgrid
  rw [Bool.eq_false_iff, ne_eq, TimeSeries.blank, hgrid, Decidable.not_not]

/-- Where the check answers for every series, those it finds blank are left out and counted. -/
theorem keepInformative_of_check {w : Window} {blank : TimeSeries → Bool}
    (h : ∀ s : TimeSeries, s.isAllNaN w.start w.stop w.step = .ok (blank s)) (series : List TimeSeries) :
    keepInformative w series = .ok (series.filter (!blank ·), series.countP blank) := by
  induction series with
  | nil => rfl
  | cons s rest ih =>
    simp only [keepInformative, h s, ih, bind, Except.bind, pure, Except.pure]
    cases hs : blank s <;> simp [hs]

theorem keepInformative_of_proper {w : Window} (h : w.Proper) (series : List TimeSeries) :
    keepInformative w series =
      .ok (series.filter (!·.blank w), series.countP (·.blank w)) :=
  keepInformative_of_check (fun s => isAllNaN_of_proper s h) series

/-- The check for NaN insists on a range in order and a positive step. -/
theorem bounds_of_isAllNaN {s : TimeSeries} {start stop step : Int} {blank : Bool}
    (h : s.isAllNaN start stop step = .ok blank) : start ≤ stop ∧ 0 < step := by
  by_cases hrange : stop < start
  · simp [TimeSeries.isAllNaN, hrange, bind, Except.bind, throw, throwThe, MonadExceptOf.throw] at h
  by_cases hstep : step ≤ 0
  · simp [TimeSeries.isAllNaN, hrange, hstep, bind, Except.bind, throw, throwThe, MonadExceptOf.throw] at h
  omega

/-- Over a range in order the check for NaN answers, and it finds nothing exactly where the series is not
informative. -/
theorem isAllNaN_eq (s : TimeSeries) {w : Window} (hstart : Instant.Shown w.start)
    (hstop : Instant.Shown w.stop) (hstep : Instant.Shown w.step) (hpos : 0 < w.step)
    (order : w.start ≤ w.stop) :
    s.isAllNaN w.start w.stop w.step = .ok (decide (¬s.Informative w)) := by
  have hgrid := Grid.all_ceiling_iff (p := fun t => (s.valueAt? t).all Float.isNaN) hpos hstart.1 hstop.2
  rw [← TimeSeries.not_informative_iff] at hgrid
  simp only [TimeSeries.isAllNaN, stepGrid_eq w.stop hpos hstart hstep.2, bind, Except.bind, pure, Except.pure]
  rw [if_neg (by omega), if_neg (by omega)]
  exact congrArg Except.ok (Bool.eq_iff_iff.mpr (hgrid.trans decide_eq_true_iff.symm))

end SeriesStream
