import Mathlib.Data.List.Sort
import SeriesStream.Proofs.Decoding
import SeriesStream.Proofs.Informative

namespace SeriesStream

/-- The multiples of `step` from `start` on and before `stop`, each once and in ascending order. -/
structure EvenlySpaced (start stop step : Int) (ts : List Int) : Prop where
  ascending : ts.Pairwise (· < ·)
  mem_iff : ∀ t, t ∈ ts ↔ start ≤ t ∧ t < stop ∧ step ∣ t

namespace EvenlySpaced

variable {a b c step t : Int} {ts us : List Int}

theorem unique (h : EvenlySpaced a b step ts) (h' : EvenlySpaced a b step us) : ts = us :=
  h.ascending.eq_of_mem_iff h'.ascending fun t => (h.mem_iff t).trans (h'.mem_iff t).symm

theorem empty (h : b ≤ a) : EvenlySpaced a b step [] := by
  refine ⟨.nil, fun t => ?_⟩
  simp only [List.not_mem_nil, false_iff]
  omega

theorem cons (hstep : 0 < step) (hdvd : step ∣ t) (hlt : t < b) (h : EvenlySpaced (t + step) b step ts) :
    EvenlySpaced t b step (t :: ts) := by
  constructor
  · refine List.pairwise_cons.mpr ⟨fun u hu => ?_, h.ascending⟩
    have := (h.mem_iff u).mp hu
    omega
  · intro u
    rw [List.mem_cons, h.mem_iff u]
    constructor
    · rintro (rfl | ⟨hle, hlt, hu⟩)
      · exact ⟨Int.le_refl u, hlt, hdvd⟩
      · exact ⟨by omega, hlt, hu⟩
    · rintro ⟨hle, hlt, hu⟩
      -- another multiple is at least a whole step away
      by_cases heq : u = t
      · exact Or.inl heq
      · have hfar : step ≤ u - t := Int.le_of_dvd (by omega) (Int.dvd_sub hu hdvd)
        exact Or.inr ⟨by omega, hlt, hu⟩

theorem of_ceiling (hstep : 0 < step) (h : EvenlySpaced (Instant.ceiling a step) b step ts) :
    EvenlySpaced a b step ts := by
  refine ⟨h.ascending, fun t => (h.mem_iff t).trans ?_⟩
  have hle := le_ceiling (t := a) hstep
  constructor
  · rintro ⟨ht, hlt, hdvd⟩
    exact ⟨by omega, hlt, hdvd⟩
  · rintro ⟨ht, hlt, hdvd⟩
    exact ⟨ceiling_le hstep hdvd ht, hlt, hdvd⟩

theorem append (hab : a ≤ b) (hbc : b ≤ c) (h : EvenlySpaced a b step ts) (h' : EvenlySpaced b c step us) :
    EvenlySpaced a c step (ts ++ us) := by
  constructor
  · refine List.pairwise_append.mpr ⟨h.ascending, h'.ascending, fun t ht u hu => ?_⟩
    have := (h.mem_iff t).mp ht
    have := (h'.mem_iff u).mp hu
    omega
  · intro t
    rw [List.mem_append, h.mem_iff t, h'.mem_iff t]
    constructor
    · rintro (⟨ha, hb, hdvd⟩ | ⟨hb, hc, hdvd⟩)
      · exact ⟨ha, by omega, hdvd⟩
      · exact ⟨by omega, hc, hdvd⟩
    · rintro ⟨ha, hc, hdvd⟩
      by_cases hb : t < b
      · exact Or.inl ⟨ha, hb, hdvd⟩
      · exact Or.inr ⟨by omega, hc, hdvd⟩

end EvenlySpaced

namespace Grid

/-- The grid whose next instant is `t`, unless no clock shows it. -/
def standing (t stop step : Int) : Grid := ⟨Instant.shown? t, stop, step⟩

/-- However many instants are asked for, they are the first ones of one and the same list. -/
def Ends (g : Grid) : Prop := ∀ limit, g.take limit = g.toList.take limit

theorem take_of_pop?_eq_none {g : Grid} (h : g.pop? = none) (limit : Nat) : g.take limit = [] := by
  cases limit with
  | zero => rfl
  | succ limit => simp [take, h]

section

variable {t stop step : Int} (hearliest : Instant.earliest ≤ t) (hstop : stop ≤ Instant.latest)

include hearliest hstop

theorem pop?_standing_of_lt (h : t < stop) :
    (standing t stop step).pop? = some (t, standing (t + step) stop step) := by
  have hshown : Instant.Shown t := ⟨hearliest, by omega⟩
  simp [standing, Instant.shown?, hshown, pop?_of_lt h]

omit hearliest hstop in
theorem pop?_standing_of_le (h : stop ≤ t) : (standing t stop step).pop? = none := by
  by_cases hshown : Instant.Shown t
  · have hnot : ¬t < stop := by omega
    simp [standing, Instant.shown?, hshown, pop?, hnot]
  · simp [standing, Instant.shown?, hshown, pop?]

/-- There is one instant more than after the next one. Where the clock ends the grid there, the end of the range was
less than a step away. -/
theorem bound_standing_of_lt (hstep : 0 < step) (h : t < stop) :
    (standing t stop step).bound = (standing (t + step) stop step).bound + 1 := by
  have hshown : Instant.Shown t := ⟨hearliest, by omega⟩
  have hround : stop - t + step - 1 = stop - (t + step) + step - 1 + 1 * step := by omega
  have hadd := Int.add_mul_ediv_right (stop - (t + step) + step - 1) 1 (Int.ne_of_gt hstep)
  have hnonneg : 0 ≤ (stop - (t + step) + step - 1) / step := Int.ediv_nonneg (by omega) (by omega)
  simp only [standing, Instant.shown?, hshown, ↓reduceIte, bound]
  rw [hround, hadd]
  by_cases hnext : Instant.Shown (t + step)
  · simp only [hnext, ↓reduceIte]
    omega
  · have hpast : Instant.latest < t + step := by
      unfold Instant.Shown at hnext
      omega
    have hlast : (stop - (t + step) + step - 1) / step = 0 :=
      Int.ediv_eq_zero_of_lt (by omega) (by omega)
    simp [hnext, hlast]

theorem toList_standing_of_lt (hstep : 0 < step) (h : t < stop) :
    (standing t stop step).toList = t :: (standing (t + step) stop step).toList := by
  rw [toList, bound_standing_of_lt hearliest hstop hstep h, take, pop?_standing_of_lt hearliest hstop h]
  rfl

omit hearliest hstop in
theorem toList_standing_of_le (h : stop ≤ t) : (standing t stop step).toList = [] :=
  take_of_pop?_eq_none (pop?_standing_of_le h) _

theorem ends_standing (hstep : 0 < step) : (standing t stop step).Ends := by
  intro limit
  induction limit generalizing t with
  | zero => simp [take]
  | succ limit ih =>
    by_cases h : t < stop
    · rw [toList_standing_of_lt hearliest hstop hstep h, take, pop?_standing_of_lt hearliest hstop h]
      exact congrArg (t :: ·) (ih (by omega))
    · have hle : stop ≤ t := by omega
      rw [toList_standing_of_le hle, take_of_pop?_eq_none (pop?_standing_of_le hle), List.take_nil]

end

theorem evenlySpaced_standing {t stop step : Int} (hearliest : Instant.earliest ≤ t) (hstop : stop ≤ Instant.latest)
    (hstep : 0 < step) (hdvd : step ∣ t) : EvenlySpaced t stop step (standing t stop step).toList := by
  by_cases h : t < stop
  · rw [toList_standing_of_lt hearliest hstop hstep h]
    have hnext : step ∣ t + step := Int.dvd_add hdvd (Int.dvd_refl step)
    exact .cons hstep hdvd h (evenlySpaced_standing (by omega) hstop hstep hnext)
  · rw [toList_standing_of_le (by omega)]
    exact .empty (by omega)
termination_by (stop - t).toNat

end Grid

/-- On the clock there is always a grid, also where its first multiple is behind the latest instant. -/
theorem exists_stepGrid {start stop step : Int} (hstart : Instant.Shown start) (hstop : stop ≤ Instant.latest)
    (hpos : 0 < step) (hstep : step ≤ Instant.latest) :
    ∃ grid, stepGrid start stop step = .ok grid ∧ grid.Ends ∧ EvenlySpaced start stop step grid.toList := by
  have hearliest : Instant.earliest ≤ Instant.ceiling start step := Int.le_trans hstart.1 (le_ceiling hpos)
  have hdvd : step ∣ Instant.ceiling start step := step_dvd_floor _ _
  refine ⟨Grid.standing (Instant.ceiling start step) stop step, stepGrid_eq stop hpos hstart hstep, ?_, ?_⟩
  · exact Grid.ends_standing hearliest hstop hpos
  · exact (Grid.evenlySpaced_standing hearliest hstop hpos hdvd).of_ceiling hpos

theorem stepGrid_of_aligned {start step : Int} (stop : Int) (hstart : Instant.Shown start) (hpos : 0 < step)
    (hdvd : step ∣ start) : stepGrid start stop step = .ok (Grid.standing start stop step) := by
  have hshown : Instant.shown? start = some start := Instant.shown?_eq_some_iff.mpr ⟨hstart, rfl⟩
  rw [stepGrid_of_dvd stop hpos hdvd, Grid.standing, hshown]

theorem Chain.evenlySpaced {a b step : Int} {ws : List Window} (h : Chain a ws b)
    (stepped : ∀ w ∈ ws, w.step = step) (hearliest : Instant.earliest ≤ a) (hlatest : b ≤ Instant.latest) :
    ∃ grids, ws.mapM Window.grid = .ok grids ∧ (∀ grid ∈ grids, grid.Ends) ∧
      EvenlySpaced a b step (grids.flatMap Grid.toList) := by
  induction h with
  | nil a => exact ⟨[], rfl, by simp, .empty (Int.le_refl a)⟩
  | @cons w ws b proper rest ih =>
    obtain ⟨rfl, hrest⟩ := List.forall_mem_cons.mp stepped
    have hlt := proper.start_lt_stop
    have hpos := proper.step_pos
    have hle := rest.le
    have hstop : w.stop ≤ Instant.latest := Int.le_trans hle hlatest
    obtain ⟨grids, hgrids, hends, hspaced⟩ := ih hrest (by omega) hlatest
    have hgrid : w.grid = .ok (Grid.standing w.start w.stop w.step) :=
      stepGrid_of_aligned w.stop ⟨hearliest, by omega⟩ hpos proper.step_dvd_start
    have hfirst := Grid.evenlySpaced_standing hearliest hstop hpos proper.step_dvd_start
    refine ⟨Grid.standing w.start w.stop w.step :: grids, ?_, ?_, ?_⟩
    · simp [List.mapM_cons, hgrid, hgrids, bind, Except.bind, pure, Except.pure]
    · exact List.forall_mem_cons.mpr ⟨Grid.ends_standing hearliest hstop hpos, hends⟩
    · exact hfirst.append (Int.le_of_lt hlt) hle hspaced

theorem Chain.eq_of_nil {a b : Int} (h : Chain a [] b) : a = b := by
  cases h
  rfl

/-- A chain over a range that is not empty has a first window and a last one. -/
theorem Chain.ends {a b : Int} {ws : List Window} (h : Chain a ws b) (hlt : a < b) :
    ∃ first last, ws.head? = some first ∧ ws.getLast? = some last ∧ first.start = a ∧ last.stop = b := by
  induction h with
  | nil => omega
  | @cons w ws b proper rest ih =>
    rcases Int.lt_or_eq_of_le rest.le with hmore | hend
    · obtain ⟨first, last, hfirst, hlast, -, hstop⟩ := ih hmore
      refine ⟨w, last, rfl, ?_, rfl, hstop⟩
      rw [List.getLast?_cons, hlast]
      rfl
    · cases ws with
      | nil => exact ⟨w, w, rfl, rfl, rfl, hend⟩
      | cons v ws =>
        -- a window that is not empty cannot begin where the range ends
        have hv := (rest.proper v List.mem_cons_self).start_lt_stop
        have hwithin := rest.within v List.mem_cons_self
        omega

/-- The grid of a range ends, and it goes through the multiples of the step in the range, each once and in ascending
order. The grids of the windows that a range is cut into make up the grid from the first start to the last end. -/
theorem grids_are_exact_and_additive :
    (∀ start stop step : Int, Instant.Shown start → Instant.Shown stop → 0 < step → step ≤ Instant.latest →
      ∃ grid, stepGrid start stop step = .ok grid ∧ grid.Ends ∧ EvenlySpaced start stop step grid.toList) ∧
    ∀ (step start stop : Int) (multiplier : Nat) (ws : List Window), stop ≤ Instant.latest →
      partition step start stop multiplier = .ok ws →
      ∃ first last grids whole, ws.head? = some first ∧ ws.getLast? = some last ∧
        ws.mapM Window.grid = .ok grids ∧ (∀ grid ∈ grids, grid.Ends) ∧
        stepGrid first.start last.stop step = .ok whole ∧ whole.Ends ∧
        grids.flatMap Grid.toList = whole.toList := by
  constructor
  · intro start stop step hstart hstop hpos hstep
    exact exists_stepGrid hstart hstop.2 hpos hstep
  · intro step start stop multiplier ws hstop hws
    obtain ⟨hpos, order, -, hearliest, chain, stepped⟩ := partition_chain hws
    have hlt := adjustedStart_lt hpos order
    have hlatest : Instant.floor stop step ≤ Instant.latest := Int.le_trans (floor_le hpos) hstop
    obtain ⟨first, last, hfirst, hlast, hfrom, hto⟩ := chain.ends hlt
    have hdvd := step_dvd_adjustedStart step start stop
    have hspaced := Grid.evenlySpaced_standing hearliest hlatest hpos hdvd
    have hend : (Grid.standing _ _ step).Ends := Grid.ends_standing hearliest hlatest hpos
    have hwhole := stepGrid_of_aligned (Instant.floor stop step) ⟨hearliest, by omega⟩ hpos hdvd
    obtain ⟨grids, hgrids, hends, hparts⟩ := chain.evenlySpaced stepped hearliest hlatest
    refine ⟨first, last, grids, _, hfirst, hlast, hgrids, hends, ?_, hend, hparts.unique hspaced⟩
    rw [hfrom, hto]
    exact hwhole

/-- Behind the last multiple of ten the clock has seven instants left, and behind the last full window two steps. -/
theorem latest_grids_are_exact :
    (Instant.Shown (Instant.latest - 9) ∧ Instant.Shown Instant.latest ∧ (0 : Int) < 10 ∧ 10 ≤ Instant.latest) ∧
    (∃ grid, stepGrid (Instant.latest - 9) Instant.latest 10 = .ok grid ∧ grid.Ends ∧
      EvenlySpaced (Instant.latest - 9) Instant.latest 10 grid.toList) ∧
    ∃ ws, partition 10 (Instant.latest - 100) Instant.latest 4 = .ok ws ∧
      ∃ first last grids whole, ws.head? = some first ∧ ws.getLast? = some last ∧
        ws.mapM Window.grid = .ok grids ∧ (∀ grid ∈ grids, grid.Ends) ∧
        stepGrid first.start last.stop 10 = .ok whole ∧ whole.Ends ∧
        grids.flatMap Grid.toList = whole.toList := by
  have hstart : Instant.Shown (Instant.latest - 9) := by decide
  have hstop : Instant.Shown Instant.latest := by decide
  have hstep : (10 : Int) ≤ Instant.latest := by decide
  obtain ⟨ws, hws⟩ : ∃ ws, partition 10 (Instant.latest - 100) Instant.latest 4 = .ok ws := ⟨_, rfl⟩
  obtain ⟨hgrid, hwindows⟩ := grids_are_exact_and_additive
  refine ⟨⟨hstart, hstop, by decide, hstep⟩, ?_, ws, hws, ?_⟩
  · exact hgrid _ _ _ hstart hstop (by decide) hstep
  · exact hwindows _ _ _ _ ws (Int.le_refl _) hws

end SeriesStream
