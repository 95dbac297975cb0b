import SeriesStream.Window

namespace SeriesStream

/-- A window that is not empty and begins on its own grid. -/
structure Window.Proper (w : Window) : Prop where
  start_lt_stop : w.start < w.stop
  step_pos : 0 < w.step
  step_dvd_start : w.step ∣ w.start

/-- Proper windows, each beginning where the one before it ends, from `a` up to `b`. -/
inductive Chain : Int → List Window → Int → Prop
  | nil (a : Int) : Chain a [] a
  | cons {w : Window} {ws : List Window} {b : Int} (proper : w.Proper) (rest : Chain w.stop ws b) :
      Chain w.start (w :: ws) b

theorem Chain.le {a b : Int} {ws : List Window} (h : Chain a ws b) : a ≤ b := by
  induction h with
  | nil => exact Int.le_refl _
  | cons proper _ ih => exact Int.le_trans (Int.le_of_lt proper.start_lt_stop) ih

theorem Chain.proper {a b : Int} {ws : List Window} (h : Chain a ws b) : ∀ w ∈ ws, w.Proper := by
  induction h with
  | nil => simp
  | cons proper _ ih => exact List.forall_mem_cons.mpr ⟨proper, ih⟩

theorem Chain.within {a b : Int} {ws : List Window} (h : Chain a ws b) :
    ∀ w ∈ ws, a ≤ w.start ∧ w.stop ≤ b := by
  induction h with
  | nil => simp
  | @cons v ws b proper rest ih =>
    intro w hw
    rcases List.mem_cons.mp hw with rfl | hw
    · exact ⟨Int.le_refl _, rest.le⟩
    · have := proper.start_lt_stop
      have := ih w hw
      omega

theorem Chain.pairwise {a b : Int} {ws : List Window} (h : Chain a ws b) :
    ws.Pairwise fun v w => v.stop ≤ w.start := by
  induction h with
  | nil => exact List.Pairwise.nil
  | cons _ rest ih => exact List.pairwise_cons.mpr ⟨fun w hw => (rest.within w hw).1, ih⟩

theorem Chain.starts_rise {a b : Int} {ws : List Window} (h : Chain a ws b) :
    ws.Pairwise fun v w => v.start < w.start := by
  refine h.pairwise.imp_of_mem fun {v w} hv _ hvw => ?_
  have := (h.proper v hv).start_lt_stop
  omega

/-- Every instant between the ends of a chain is in one of its windows. -/
theorem Chain.covers {a b t : Int} {ws : List Window} (h : Chain a ws b) (ha : a ≤ t) (hb : t < b) :
    ∃ w ∈ ws, w.start ≤ t ∧ t < w.stop := by
  induction h with
  | nil => omega
  | @cons w ws b _ _ ih =>
    by_cases ht : t < w.stop
    · exact ⟨w, by simp, ha, ht⟩
    · obtain ⟨v, hv, hin⟩ := ih (by omega) hb
      exact ⟨v, List.mem_cons_of_mem _ hv, hin⟩

theorem windowsBetween_of_le {start stop span : Int} (step : Int) (hspan : 0 < span)
    (h : stop ≤ start) : windowsBetween start stop span step = [] := by
  have hn : (stop - start + span - 1) / span < 1 := Int.ediv_lt_of_lt_mul hspan (by omega)
  simp [windowsBetween, show ((stop - start + span - 1) / span).toNat = 0 by omega]

/-- The first window is cut off and the others follow from where it ends. -/
theorem windowsBetween_of_lt {start stop span : Int} (step : Int) (hspan : 0 < span)
    (h : start < stop) :
    windowsBetween start stop span step =
      ⟨start, min (start + span) stop, step⟩ :: windowsBetween (start + span) stop span step := by
  have hn : ((stop - start + span - 1) / span).toNat =
      ((stop - (start + span) + span - 1) / span).toNat + 1 := by
    have hsum : stop - start + span - 1 = stop - (start + span) + span - 1 + 1 * span := by omega
    have hleft : 0 ≤ (stop - (start + span) + span - 1) / span := Int.ediv_nonneg (by omega) (by omega)
    rw [hsum, Int.add_mul_ediv_right _ _ (Int.ne_of_gt hspan)]
    omega
  have hshift (i : Nat) : start + (i + 1 : Nat) * span = start + span + i * span := by
    rw [Int.natCast_succ, Int.add_mul]
    omega
  simp only [windowsBetween, hn, List.range_succ_eq_map, List.map_cons, List.map_map]
  refine List.cons_eq_cons.mpr ⟨by simp, List.map_congr_left fun i _ => ?_⟩
  have hnext : start + ((i + 1 : Nat) + 1 : Int) * span = start + span + (i + 1) * span := by
    have := hshift (i + 1)
    simpa using this
  simp only [Function.comp_apply, Nat.succ_eq_add_one, hshift, hnext]

theorem windowsBetween_chain {start stop span step : Int} (hstep : 0 < step) (hspan : 0 < span)
    (hgrid : step ∣ start) (hdvd : step ∣ span) (h : start ≤ stop) :
    Chain start (windowsBetween start stop span step) stop := by
  rcases Int.lt_or_eq_of_le h with hlt | rfl
  · rw [windowsBetween_of_lt step hspan hlt]
    refine Chain.cons (w := ⟨start, min (start + span) stop, step⟩) ⟨?_, hstep, hgrid⟩ ?_
    · show start < min (start + span) stop
      omega
    · by_cases hlast : start + span ≤ stop
      · rw [Int.min_eq_left hlast]
        exact windowsBetween_chain hstep hspan (Int.dvd_add hgrid hdvd) hdvd hlast
      · rw [windowsBetween_of_le step hspan (by omega), Int.min_eq_right (by omega)]
        exact .nil stop
  · rw [windowsBetween_of_le step hspan h]
    exact .nil start
termination_by (stop - start).toNat

/-- Where the windows of a range begin: its start rounded down, and one step earlier if the end is
rounded down to the same instant. -/
def adjustedStart (step start stop : Int) : Int :=
  if Instant.floor start step = Instant.floor stop step then Instant.floor start step - step
  else Instant.floor start step

theorem step_dvd_floor (t step : Int) : step ∣ Instant.floor t step := Int.dvd_self_sub_emod

theorem floor_le {t step : Int} (h : 0 < step) : Instant.floor t step ≤ t := by
  have := Int.emod_nonneg t (Int.ne_of_gt h)
  unfold Instant.floor
  omega

theorem floor_mono {t u step : Int} (h : 0 < step) (htu : t ≤ u) :
    Instant.floor t step ≤ Instant.floor u step := by
  have ht := Int.emod_add_mul_ediv t step
  have hu := Int.emod_add_mul_ediv u step
  have hle : step * (t / step) ≤ step * (u / step) :=
    Int.mul_le_mul_of_nonneg_left (Int.ediv_le_ediv h htu) (Int.le_of_lt h)
  unfold Instant.floor
  omega

theorem step_dvd_adjustedStart (step start stop : Int) : step ∣ adjustedStart step start stop := by
  have hfirst := step_dvd_floor start step
  unfold adjustedStart
  split
  · exact Int.dvd_sub hfirst (Int.dvd_refl step)
  · exact hfirst

theorem adjustedStart_lt {step start stop : Int} (hstep : 0 < step) (h : start ≤ stop) :
    adjustedStart step start stop < Instant.floor stop step := by
  have := floor_mono hstep h
  unfold adjustedStart
  split <;> omega

/-- What is known of the windows that a range was cut into. -/
theorem partition_chain {step start stop : Int} {multiplier : Nat} {windows : List Window}
    (h : partition step start stop multiplier = .ok windows) :
    0 < step ∧ start ≤ stop ∧ step * multiplier ≤ Instant.latest ∧
      Instant.earliest ≤ adjustedStart step start stop ∧
      Chain (adjustedStart step start stop) windows (Instant.floor stop step) ∧
      ∀ w ∈ windows, w.step = step := by
  simp only [partition] at h
  by_cases horder : stop < start
  · simp [horder] at h
  by_cases hstep : step ≤ 0
  · simp [horder, hstep] at h
  by_cases hmult : multiplier = 0
  · simp [horder, hstep, hmult] at h
  by_cases hspan : Instant.latest < step * multiplier
  · simp [horder, hstep, hmult, hspan] at h
  simp only [horder, hstep, hmult, hspan, ↓reduceIte, ← adjustedStart.eq_1] at h
  split at h
  next => simp at h
  next halign =>
    have hpos : 0 < step * (multiplier : Int) := Int.mul_pos (by omega) (by omega)
    have hchain := windowsBetween_chain (by omega) hpos (step_dvd_adjustedStart step start stop)
      (Int.dvd_mul_right _ _) (Int.le_of_lt (adjustedStart_lt (by omega) (by omega)))
    obtain rfl := Except.ok.inj h
    refine ⟨by omega, by omega, by omega, by omega, hchain, ?_⟩
    intro w hw
    obtain ⟨i, _, rfl⟩ := List.mem_map.mp hw
    rfl

end SeriesStream
