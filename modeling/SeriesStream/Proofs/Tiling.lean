import Mathlib.Data.Rat.Floor
import SeriesStream.Proofs.Partition

namespace SeriesStream

/-- From `t` on up to `stop`, one window of `span` after the other, the last one perhaps shorter. -/
inductive Tiles (span step stop : Int) : Int → List Window → Prop
  | last {t : Int} (left : t < stop) (fits : stop - t ≤ span) : Tiles span step stop t [⟨t, stop, step⟩]
  | more {t : Int} {ws : List Window} (full : t + span < stop) (rest : Tiles span step stop (t + span) ws) :
      Tiles span step stop t (⟨t, t + span, step⟩ :: ws)

/-- One round of cutting on a clock that stands still at its latest instant: the sum need not be shown,
for the window is cut off at `stop` anyway. -/
theorem windowsBetween_round {t stop span : Int} (step : Int) (hspan : 0 < span)
    (hstop : stop ≤ Instant.latest) (left : t < stop) :
    windowsBetween t stop span step =
      ⟨t, min (min (t + span) Instant.latest) stop, step⟩ ::
        windowsBetween (min (min (t + span) Instant.latest) stop) stop span step := by
  have hnext : min (min (t + span) Instant.latest) stop = min (t + span) stop := by omega
  rw [hnext, windowsBetween_of_lt step hspan left]
  by_cases hfits : t + span ≤ stop
  · rw [Int.min_eq_left hfits]
  · rw [Int.min_eq_right (by omega), windowsBetween_of_le step hspan (Int.le_refl stop),
      windowsBetween_of_le step hspan (by omega)]

theorem tiles_windowsBetween {t stop span : Int} (step : Int) (hspan : 0 < span)
    (hstop : stop ≤ Instant.latest) (left : t < stop) :
    Tiles span step stop t (windowsBetween t stop span step) := by
  rw [windowsBetween_round step hspan hstop left]
  by_cases hfull : t + span < stop
  · have hnext : min (min (t + span) Instant.latest) stop = t + span := by omega
    rw [hnext]
    exact .more hfull (tiles_windowsBetween step hspan hstop hfull)
  · have hnext : min (min (t + span) Instant.latest) stop = stop := by omega
    rw [hnext, windowsBetween_of_le step hspan (Int.le_refl stop)]
    exact .last left (by omega)
termination_by (stop - t).toNat

namespace Tiles

variable {span step stop t : Int} {ws : List Window}

theorem opens (h : Tiles span step stop t ws) : ∃ w rest, ws = w :: rest ∧ w.start = t := by
  cases h with
  | last => exact ⟨_, _, rfl, rfl⟩
  | more => exact ⟨_, _, rfl, rfl⟩

theorem adjacent (h : Tiles span step stop t ws) : ws.IsChain fun v w => v.stop = w.start := by
  induction h with
  | last => exact .singleton _
  | more _ rest ih =>
    obtain ⟨w, ws, rfl, hw⟩ := rest.opens
    exact .cons_cons hw.symm ih

theorem stepped (h : Tiles span step stop t ws) : ∀ w ∈ ws, w.step = step := by
  induction h with
  | last => simp
  | more _ _ ih => exact List.forall_mem_cons.mpr ⟨rfl, ih⟩

theorem aligned (h : Tiles span step stop t ws) (hspan : step ∣ span) (hstop : step ∣ stop) (ht : step ∣ t) :
    ∀ w ∈ ws, step ∣ w.start ∧ step ∣ w.stop := by
  induction h with
  | last => simp [ht, hstop]
  | more _ _ ih =>
    have hnext := Int.dvd_add ht hspan
    exact List.forall_mem_cons.mpr ⟨⟨ht, hnext⟩, ih hnext⟩

theorem within (h : Tiles span step stop t ws) (hspan : 0 < span) :
    ∀ w ∈ ws, t ≤ w.start ∧ w.start < w.stop ∧ w.stop ≤ stop := by
  induction h with
  | @last t left fits => simp [left]
  | @more t ws full rest ih =>
    refine List.forall_mem_cons.mpr ⟨⟨Int.le_refl t, ?_, ?_⟩, fun w hw => ?_⟩
    · show t < t + span
      omega
    · show t + span ≤ stop
      omega
    · have := ih w hw
      omega

/-- All windows have the full span, up to one at the end that is no longer. -/
theorem closes (h : Tiles span step stop t ws) :
    ∃ front w, ws = front ++ [w] ∧ (∀ v ∈ front, v.stop - v.start = span) ∧ w.stop = stop ∧
      w.start < w.stop ∧ w.stop - w.start ≤ span := by
  induction h with
  | @last t left fits => exact ⟨[], _, rfl, by simp, rfl, left, fits⟩
  | @more t ws full rest ih =>
    obtain ⟨front, w, rfl, hfront, hw⟩ := ih
    refine ⟨⟨t, t + span, step⟩ :: front, w, rfl, List.forall_mem_cons.mpr ⟨?_, hfront⟩, hw⟩
    simp only
    omega

/-- The windows reach the end, and without the last one they do not. -/
theorem length_bounds (h : Tiles span step stop t ws) :
    (ws.length - 1) * span < stop - t ∧ stop - t ≤ ws.length * span := by
  induction h with
  | last left fits => simp only [List.length_singleton]; omega
  | @more t ws full rest ih =>
    have hsucc : ((ws.length + 1 : Nat) : Int) * span = ws.length * span + span := by
      rw [Int.natCast_succ, Int.add_mul, Int.one_mul]
    have hpred : ((ws.length + 1 : Nat) - 1 : Int) * span = (ws.length - 1) * span + span := by
      rw [Int.natCast_succ, Int.add_sub_cancel, Int.sub_mul, Int.one_mul, Int.sub_add_cancel]
    rw [List.length_cons, hsucc, hpred]
    omega

theorem length_eq (h : Tiles span step stop t ws) (hspan : 0 < span) :
    (ws.length : Int) = ⌈((stop - t : Int) : ℚ) / span⌉ := by
  obtain ⟨hless, hle⟩ := h.length_bounds
  have hpos : (0 : ℚ) < span := by exact_mod_cast hspan
  rw [eq_comm, Int.ceil_eq_iff, lt_div_iff₀ hpos, div_le_iff₀ hpos]
  exact ⟨by exact_mod_cast hless, by exact_mod_cast hle⟩

end Tiles

/-- The greatest multiple of `step` at or before `t`. -/
def RoundsTo (t step r : Int) : Prop := IsGreatest {m | step ∣ m ∧ m ≤ t} r

theorem roundsTo_floor {t step : Int} (hstep : 0 < step) : RoundsTo t step (Instant.floor t step) := by
  refine ⟨⟨step_dvd_floor t step, floor_le hstep⟩, fun m ⟨hdvd, hm⟩ => ?_⟩
  have hself : Instant.floor m step = m := by
    rw [Instant.floor, Int.emod_eq_zero_of_dvd hdvd, Int.sub_zero]
  rw [← hself]
  exact floor_mono hstep hm

theorem RoundsTo.eq_floor {t step r : Int} (h : RoundsTo t step r) (hstep : 0 < step) :
    r = Instant.floor t step :=
  IsGreatest.unique h (roundsTo_floor hstep)

/-- What keeps a range whose bounds are in order from being cut into windows. -/
def Uncuttable (step start stop : Int) (multiplier : Nat) : Prop :=
  step ≤ 0 ∨ multiplier = 0 ∨ Instant.latest < step * multiplier ∨
    ∃ rs re, RoundsTo start step rs ∧ RoundsTo stop step re ∧
      (rs < Instant.earliest ∨ rs = re ∧ rs - step < Instant.earliest)

/-- The windows of a range of which only the last one may be shorter than `span`. -/
structure ExactCut (step span first last : Int) (ws : List Window) : Prop where
  nonempty : ws ≠ []
  opens : ∀ w ∈ ws.head?, w.start = first
  closes : ∀ w ∈ ws.getLast?, w.stop = last
  adjacent : ws.IsChain fun v w => v.stop = w.start
  stepped : ∀ w ∈ ws, w.step = step
  aligned : ∀ w ∈ ws, step ∣ w.start ∧ step ∣ w.stop
  full : ∀ w ∈ ws.dropLast, w.stop - w.start = span
  cutOff : ∀ w ∈ ws.getLast?, 0 < w.stop - w.start ∧ w.stop - w.start ≤ span
  count : (ws.length : Int) = ⌈((last - first : Int) : ℚ) / span⌉
  durations : ∀ w ∈ ws, w.duration = .ok (w.stop - w.start)
  shown : ∀ w ∈ ws, Instant.Shown w.start ∧ Instant.Shown w.stop

theorem Tiles.exactCut {span step stop t : Int} {ws : List Window} (h : Tiles span step stop t ws)
    (hspan : 0 < span) (hlong : span ≤ Instant.latest) (hdvd : step ∣ span) (hstop : step ∣ stop)
    (ht : step ∣ t) (hearliest : Instant.earliest ≤ t) (hlatest : stop ≤ Instant.latest) :
    ExactCut step span t stop ws := by
  have hwithin := h.within hspan
  obtain ⟨v, rest, hfirst, hv⟩ := h.opens
  obtain ⟨front, w, hlast, hfront, hw, hlt, hle⟩ := h.closes
  have hshort : ∀ v ∈ ws, v.stop - v.start ≤ span := by
    intro v hv
    rw [hlast] at hv
    rcases List.mem_append.mp hv with hv | hv
    · exact Int.le_of_eq (hfront v hv)
    · obtain rfl := List.mem_singleton.mp hv
      exact hle
  exact {
    nonempty := by simp [hfirst]
    opens := by simpa [hfirst] using hv
    closes := by simpa [hlast] using hw
    adjacent := h.adjacent
    stepped := h.stepped
    aligned := h.aligned hdvd hstop ht
    full := by simpa [hlast] using hfront
    cutOff := by
      rw [hlast]
      simp only [List.getLast?_concat, Option.mem_def, Option.some.injEq, forall_eq']
      exact ⟨by omega, hle⟩
    count := h.length_eq hspan
    durations := by
      intro v hv
      have hshown : Instant.shown? (v.stop - v.start) = some (v.stop - v.start) := by
        refine Instant.shown?_eq_some_iff.mpr ⟨⟨?_, ?_⟩, rfl⟩
        · have := hwithin v hv
          unfold Instant.earliest
          omega
        · exact Int.le_trans (hshort v hv) hlong
      rw [Window.duration, hshown]
    shown := by
      intro v hv
      have := hwithin v hv
      unfold Instant.Shown
      omega }

section

variable {step start stop : Int} {multiplier : Nat}

theorem partition_of_lt (h : stop < start) :
    partition step start stop multiplier = .error (.startAfterEnd start stop) := by
  simp [partition, h]

theorem uncuttable_iff (hstep : 0 < step) (hmultiplier : multiplier ≠ 0)
    (hspan : step * multiplier ≤ Instant.latest) :
    Uncuttable step start stop multiplier ↔
      Instant.floor start step < Instant.earliest ∨ adjustedStart step start stop < Instant.earliest := by
  unfold Uncuttable adjustedStart
  constructor
  · rintro (h | h | h | ⟨rs, re, hrs, hre, hlow⟩)
    · omega
    · exact absurd h hmultiplier
    · omega
    · rw [← hrs.eq_floor hstep, ← hre.eq_floor hstep]
      rcases hlow with hlow | ⟨rfl, hlow⟩
      · exact Or.inl hlow
      · exact Or.inr (by simpa using hlow)
  · intro hlow
    refine Or.inr (Or.inr (Or.inr ⟨_, _, roundsTo_floor hstep, roundsTo_floor hstep, ?_⟩))
    split at hlow <;> omega

theorem partition_of_uncuttable (order : start ≤ stop) (h : Uncuttable step start stop multiplier) :
    ∃ e, partition step start stop multiplier = .error e ∧ e.kind = .validation := by
  have horder : ¬stop < start := by omega
  unfold partition
  simp only [horder, ↓reduceIte, ← adjustedStart.eq_1]
  by_cases hstep : step ≤ 0
  · exact ⟨_, if_pos hstep, rfl⟩
  by_cases hmultiplier : multiplier = 0
  · exact ⟨_, by rw [if_neg hstep, if_pos hmultiplier], rfl⟩
  by_cases hspan : Instant.latest < step * multiplier
  · exact ⟨_, by rw [if_neg hstep, if_neg hmultiplier, if_pos hspan], rfl⟩
  have hlow := (uncuttable_iff (by omega) hmultiplier (by omega)).mp h
  exact ⟨_, by rw [if_neg hstep, if_neg hmultiplier, if_neg hspan, if_pos hlow], rfl⟩

theorem partition_of_cuttable (order : start ≤ stop) (h : ¬Uncuttable step start stop multiplier) :
    0 < step ∧ 0 < step * (multiplier : Int) ∧ step * multiplier ≤ Instant.latest ∧
      Instant.earliest ≤ adjustedStart step start stop ∧
      partition step start stop multiplier = .ok (windowsBetween (adjustedStart step start stop)
        (Instant.floor stop step) (step * multiplier) step) := by
  have hstep : ¬step ≤ 0 := fun hstep => h (Or.inl hstep)
  have hmultiplier : multiplier ≠ 0 := fun hmultiplier => h (Or.inr (Or.inl hmultiplier))
  have hspan : ¬Instant.latest < step * multiplier := fun hspan => h (Or.inr (Or.inr (Or.inl hspan)))
  have hlow : ¬(Instant.floor start step < Instant.earliest ∨
      adjustedStart step start stop < Instant.earliest) :=
    fun hlow => h ((uncuttable_iff (by omega) hmultiplier (by omega)).mpr hlow)
  have hpos : 0 < step * (multiplier : Int) := Int.mul_pos (by omega) (by omega)
  have horder : ¬stop < start := by omega
  refine ⟨by omega, hpos, by omega, by omega, ?_⟩
  unfold partition
  simp only [← adjustedStart.eq_1]
  rw [if_neg horder, if_neg hstep, if_neg hmultiplier, if_neg hspan, if_neg hlow]

end

/-- A range is refused for its order, or else for what keeps it from being cut, or else it is cut into
windows that fit it exactly. -/
theorem partition_is_exact {step start stop : Int} {multiplier : Nat} (hstop : stop ≤ Instant.latest) :
    ((∃ e, partition step start stop multiplier = .error e ∧ e.kind = .invalidRange) ↔ stop < start) ∧
    ((∃ e, partition step start stop multiplier = .error e ∧ e.kind = .validation) ↔
      start ≤ stop ∧ Uncuttable step start stop multiplier) ∧
    ((∃ ws, partition step start stop multiplier = .ok ws) ↔
      start ≤ stop ∧ ¬Uncuttable step start stop multiplier) ∧
    ∀ ws, partition step start stop multiplier = .ok ws →
      ∃ rs re, RoundsTo start step rs ∧ RoundsTo stop step re ∧
        ExactCut step (step * multiplier) (if rs = re then rs - step else rs) re ws := by
  by_cases order : stop < start
  · simp [partition_of_lt order, order, RangeError.kind, Int.not_le.mpr order]
  have horder : start ≤ stop := Int.not_lt.mp order
  by_cases hcut : Uncuttable step start stop multiplier
  · obtain ⟨e, he, hkind⟩ := partition_of_uncuttable horder hcut
    simp [he, hkind, order, horder, hcut]
  · obtain ⟨hstep, hpos, hspan, hearliest, hok⟩ := partition_of_cuttable horder hcut
    have hlatest : Instant.floor stop step ≤ Instant.latest := Int.le_trans (floor_le hstep) hstop
    have htiles := tiles_windowsBetween step hpos hlatest (adjustedStart_lt hstep horder)
    have hexact := htiles.exactCut hpos hspan (Int.dvd_mul_right _ _) (step_dvd_floor stop step)
      (step_dvd_adjustedStart step start stop) hearliest hlatest
    refine ⟨by simp [hok, order], by simp [hok, hcut], by simp [hok, horder, hcut], fun ws hws => ?_⟩
    obtain rfl := Except.ok.inj (hok.symm.trans hws)
    exact ⟨_, _, roundsTo_floor hstep, roundsTo_floor hstep, hexact⟩

/-- A window of this span that began here would end behind the latest instant. -/
theorem latest_instants_are_cut_exactly :
    Instant.latest ≤ Instant.latest ∧
    ∃ ws, partition 2000000000 (Instant.latest - 6000000000) Instant.latest 4294967295 = .ok ws ∧
      ∃ rs re, RoundsTo (Instant.latest - 6000000000) 2000000000 rs ∧
        RoundsTo Instant.latest 2000000000 re ∧
        ExactCut 2000000000 (2000000000 * (4294967295 : Nat))
          (if rs = re then rs - 2000000000 else rs) re ws := by
  obtain ⟨ws, hws⟩ :
      ∃ ws, partition 2000000000 (Instant.latest - 6000000000) Instant.latest 4294967295 = .ok ws := ⟨_, rfl⟩
  obtain ⟨-, -, -, hcut⟩ := @partition_is_exact 2000000000 (Instant.latest - 6000000000) Instant.latest
    4294967295 (Int.le_refl Instant.latest)
  exact ⟨Int.le_refl _, ws, hws, hcut ws hws⟩

end SeriesStream
