import SeriesStream.Proofs.Deadline
import SeriesStream.Proofs.Ordered
import SeriesStream.Proofs.Serving
import SeriesStream.Settings.Environment

namespace SeriesStream

namespace Settings

theorem valid_of_validated {s t : Settings} (h : s.validated = .ok t) : t.fault? = none := by
  unfold validated at h
  split at h
  next valid =>
    obtain rfl := Except.ok.inj h
    exact valid
  next => cases h

theorem valid_of_load {e : Environment} {path : String} {s : Settings} (h : load e path = .ok s) :
    s.fault? = none := by
  obtain ⟨text, -, h⟩ := exists_of_bind h
  split at h
  next => cases h
  next =>
    obtain ⟨t, -, h⟩ := exists_of_bind h
    exact valid_of_validated h

theorem valid_of_environment {e : Environment} {s : Settings} (h : ofEnvironment e = .ok s) :
    s.fault? = none := by
  obtain ⟨t, -, h⟩ := exists_of_bind h
  exact valid_of_validated h

end Settings

/-- Cuts a range as a clock does it, which takes remainders and notices every number that it cannot show. -/
def partitionOnClock (step start stop : Int) (multiplier : Nat) :
    Except Fault (Except RangeError (List Window)) := do
  if stop < start then return .error (.startAfterEnd start stop)
  if step ≤ 0 then return .error (.stepNotPositive step)
  if multiplier = 0 then return .error .noStepsPerWindow
  match Instant.shown? (step * multiplier) with
  | none => return .error .windowTooLong
  | some span =>
    match ← roundDown start step, ← roundDown stop step with
    | some first, some last =>
      match if first = last then Instant.shown? (first - step) else some first with
      | none => return .error (.notAlignable start stop step)
      | some opening => return .ok (windowsBetween opening last span step)
    | _, _ => return .error (.notAlignable start stop step)

theorem roundDown_of_pos {t step : Int} (h : 0 < step) :
    roundDown t step = .ok (Instant.shown? (Instant.floor t step)) := by
  have hguard : ¬(step = 0 ∨ t = Instant.earliest ∧ step = -1) := by omega
  simp [roundDown, remainder, hguard, bind, Except.bind, pure, Except.pure, Instant.floor]

/-- Up to the latest instant that it shows, a clock cuts every range, and nothing that it computes is lost. -/
theorem partitionOnClock_eq {step start stop : Int} (multiplier : Nat) (latest : stop ≤ Instant.latest) :
    partitionOnClock step start stop multiplier = .ok (partition step start stop multiplier) := by
  by_cases horder : stop < start
  · simp [partitionOnClock, partition, horder, pure, Except.pure]
  by_cases hstep : step ≤ 0
  · simp [partitionOnClock, partition, horder, hstep, pure, Except.pure]
  by_cases hmult : multiplier = 0
  · simp [partitionOnClock, partition, horder, hstep, hmult, pure, Except.pure]
  by_cases hspan : Instant.latest < step * multiplier
  · have hproduct := Instant.shown?_eq_none_iff.mpr (Or.inr hspan)
    simp [partitionOnClock, partition, horder, hstep, hmult, hspan, hproduct, pure, Except.pure]
  have hpos : 0 < step := Int.not_le.mp hstep
  have hproduct : Instant.shown? (step * multiplier) = some (step * multiplier) := by
    have hnonneg : 0 ≤ step * (multiplier : Int) := Int.mul_nonneg (by omega) (by omega)
    have hearliest : Instant.earliest ≤ 0 := by decide
    exact Instant.shown?_eq_some_iff.mpr ⟨⟨by omega, by omega⟩, rfl⟩
  have hmono := floor_mono hpos (Int.not_lt.mp horder)
  have hlast := floor_le (t := stop) hpos
  have hshown (t : Int) (hle : t ≤ Instant.floor stop step) (hge : ¬t < Instant.earliest) :
      Instant.shown? t = some t := Instant.shown?_eq_some_iff.mpr ⟨⟨by omega, by omega⟩, rfl⟩
  simp only [partitionOnClock, partition, horder, hstep, hmult, hspan, hproduct, roundDown_of_pos hpos, ↓reduceIte,
    bind, Except.bind, pure, Except.pure]
  -- from here on it matters only which of the two bounds and of the widened start a clock shows
  by_cases hfirst : Instant.floor start step < Instant.earliest
  · have hnone := Instant.shown?_eq_none_iff.mpr (Or.inl hfirst)
    simp [hnone, hfirst]
  have hopens := hshown _ hmono hfirst
  have hcloses := hshown _ (Int.le_refl _) (by omega)
  by_cases hsame : Instant.floor start step = Instant.floor stop step
  · rw [hsame] at hfirst
    by_cases hopening : Instant.floor stop step - step < Instant.earliest
    · have hnone := Instant.shown?_eq_none_iff.mpr (Or.inl hopening)
      simp [hcloses, hsame, hopening, hnone]
    · have hwidened := hshown (Instant.floor stop step - step) (by omega) hopening
      simp [hcloses, hsame, hopening, hwidened, hfirst]
  · simp [hopens, hcloses, hsame, hfirst]

namespace Execution

variable {x : Execution}

/-- A drain with pulls to spare comes to the end. -/
theorem drainWithin_of_drained (sound : x.Sound) {n pulls : Nat}
    (drained : (x.follow (List.replicate n .pull)).Drained) (enough : n ≤ pulls) :
    ∃ told y, drainWithin pulls x = .ok (told, y) ∧ y.phase = .finished := by
  induction n generalizing x pulls with
  | zero =>
    obtain ⟨t, ht⟩ := drained
    simp [follow] at ht
  | succ n ih =>
    obtain ⟨pulls, rfl⟩ : ∃ k, pulls = k + 1 := ⟨pulls - 1, by omega⟩
    obtain ⟨t, ht⟩ := drained
    cases hp : x.pull with
    | error fault => simp [List.replicate_succ, follow, hp] at ht
    | ok result =>
      obtain ⟨e, y⟩ := result
      cases e with
      | none =>
        refine ⟨[], y, ?_, (phase_of_pull sound hp).2⟩
        simp [drainWithin, hp, bind, Except.bind, pure, Except.pure]
      | some e =>
        have hrest : (t, none) ∈ (y.follow (List.replicate n .pull)).told := by
          simpa [List.replicate_succ, follow, hp] using ht
        have hy := (advances_of_pull sound hp).sound
        obtain ⟨told, z, hz, phase⟩ := ih hy ⟨t, hrest⟩ (Nat.le_of_succ_le_succ enough)
        refine ⟨(y.now, e) :: told, z, ?_, phase⟩
        simp [drainWithin, hp, hz, bind, Except.bind, pure, Except.pure]

end Execution

theorem Source.windows_of_fetches (s : Source) (n : Nat) (ws : List Window) :
    (s.fetches n ws).map (·.1) = ws := by
  induction ws generalizing n with
  | nil => rfl
  | cons w ws ih => rw [fetches, List.map_cons, ih]

section

variable {plan : Plan} {windows : List Window} {backend : Backend} {options : StreamOptions}
  {lead : Nat → Lead}

theorem ordered_begun (backend : Backend) (lead : Nat → Lead)
    (cut : partition plan.step plan.start plan.stop options.multiplier = .ok windows)
    (fluent : ∀ p ∈ plan.expressions, p.expression.Fluent) :
    (plan.begun windows backend options lead).pipeline.Ordered Instant.earliest
      (Instant.floor plan.stop plan.step) := by
  obtain ⟨-, -, -, hearliest, chain, -⟩ := partition_chain cut
  refine Or.inr ⟨plan.slots, _, hearliest, ?_, ⟨rfl, rfl, by simp [Plan.begun, Evaluator.ofPlan]⟩, ?_⟩
  · have hwindows := (plan.source backend options).windows_of_fetches 0 windows
    exact hwindows.symm ▸ chain
  · intro slot hslot
    obtain ⟨p, hp, rfl⟩ := List.mem_map.mp hslot
    exact fluent p hp

/-- An execution whose windows yield is drained by the pulls that a drain takes. -/
theorem drain_begun (started : Started plan windows backend options (plan.begun windows backend options lead))
    (whole : ∀ s ∈ plan.courseOver windows backend options, ∃ result, s.result = .ok result) :
    ∃ told y, (plan.begun windows backend options lead).drain = .ok (told, y) ∧ y.phase = .finished := by
  refine Execution.drainWithin_of_drained started.sound (drained_of_pulls started whole (Nat.le_refl _)) ?_
  have hleft : (plan.begun windows backend options lead).windowsLeft = windows.length := by
    simp [Execution.windowsLeft, Plan.begun, Fetcher.create]
  have hnow : (plan.begun windows backend options lead).now = 0 := rfl
  have htime : windows.length * options.timeout ≤ 0 + (windows.length + 1) * options.timeout := by
    rw [Nat.succ_mul]
    omega
  have hbeats := Nat.div_le_div_right (c := options.heartbeat) htime
  rw [Execution.pullBound, hleft, hnow]
  show _ ≤ windows.length + 4 + (0 + (windows.length + 1) * options.timeout) / options.heartbeat
  omega

end

/-- Under settings that were loaded no execution of built-in expressions breaks off, whatever its range and whatever
its backend answers: at no point does a pull break off, and each chunk is evaluated as the next in order. -/
theorem loaded_settings_never_break_off {env : Environment} {settings : Settings} {plan : Plan}
    (loaded : (∃ path, Settings.load env path = .ok settings) ∨ Settings.ofEnvironment env = .ok settings)
    (builtin : ∀ p ∈ plan.expressions, ∃ f q, p.expression = Function.toExpression f q)
    (latest : plan.stop ≤ Instant.latest) (backend : Backend) (lead : Nat → Lead) :
    0 < settings.streaming.options.heartbeat ∧
    partitionOnClock plan.step plan.start plan.stop settings.streaming.options.multiplier =
      .ok (partition plan.step plan.start plan.stop settings.streaming.options.multiplier) ∧
    ∃ call, execute plan backend settings.streaming.options lead = .ok call ∧ ∀ x, call = .ok x →
      (∀ steps, ∃ y, (x.follow steps).final = .ok y) ∧
      (∃ told y, x.drain = .ok (told, y) ∧ y.phase = .finished) ∧
      ∀ y, x.Visits y → (∃ e z, y.pull = .ok (e, z)) ∧
        ∀ c f, y.pipeline.fetcher.poll = (.ready (some (.ok c)), f) →
          (c.window.Proper ∧ Instant.earliest ≤ c.window.start ∧ c.window.stop ≤ Instant.latest) ∧
          ∃ batch after, y.pipeline.evaluator.evaluate c = .ok (.ok batch, after) := by
  have valid : settings.fault? = none := by
    rcases loaded with ⟨path, h⟩ | h
    · exact Settings.valid_of_load h
    · exact Settings.valid_of_environment h
  have beating := Http.beating_of_valid valid
  have fluent : ∀ p ∈ plan.expressions, p.expression.Fluent := by
    intro p hp
    obtain ⟨f, q, hexpression⟩ := builtin p hp
    rw [hexpression]
    exact fluent_toExpression f q
  have steady : ∀ p ∈ plan.expressions, p.expression.Steady := fun p hp => (fluent p hp).steady
  refine ⟨beating, partitionOnClock_eq _ latest, ?_⟩
  cases cut : partition plan.step plan.start plan.stop settings.streaming.options.multiplier with
  | error e => exact ⟨.error e, by simp [execute, cut], by simp⟩
  | ok windows =>
    have hx := execute_of_cut backend lead cut beating
    refine ⟨_, hx, ?_⟩
    rintro _ ⟨⟩
    have started := started_begun backend lead cut beating
    have whole : ∀ s ∈ plan.courseOver windows backend settings.streaming.options,
        ∃ result, s.result = .ok result := courseOver_whole cut steady
    obtain ⟨ahead, -, -⟩ := ahead_of_execute hx cut
    obtain ⟨hstep, -⟩ := partition_chain cut
    have hstop := floor_le (t := plan.stop) hstep
    refine ⟨fun steps => ?_, drain_begun started whole, fun y visits => ?_⟩
    · rcases Execution.follow_cases started.sound steps with ⟨y, hy, -⟩ | ⟨fault, w, -, hw, -⟩
      · exact ⟨y, hy⟩
      · obtain ⟨result, hresult⟩ := whole _ (started.course ▸ hw)
        cases hresult
    · have hordered := Execution.lasting_of_visits (Pipeline.lasting_ordered _ _) (fun _ _ => Or.inl rfl) ahead
        (ordered_begun backend lead cut fluent) visits
      have hahead := ahead.visits visits
      refine ⟨?_, fun c f polled => ?_⟩
      · by_cases gone : y.outcome.isSome = true
        · exact ⟨none, y, by simp [Execution.pull, gone]⟩
        · exact Execution.pull_ok hordered (hahead.sound (by simpa using gone))
      · have hcases := Fetcher.poll_cases hahead.pipeline.sound.fetcher
        rw [polled] at hcases
        cases hcases with
        | chunk settled delivered =>
          obtain ⟨⟨proper, hstart, hend⟩, batch, after, hevaluate, -⟩ :=
            hordered.evaluates hahead.pipeline.sound settled delivered
          exact ⟨⟨proper, hstart, by omega⟩, batch, after, hevaluate⟩

theorem standard_settings_never_break_off :
    ∃ env : Environment, Settings.ofEnvironment env = .ok .standard ∧
      0 < Settings.standard.streaming.options.heartbeat ∧
      ∃ call, execute .sample .flaky Settings.standard.streaming.options (fun _ => .batch) = .ok call ∧
        ∀ x, call = .ok x → (∀ steps, ∃ y, (x.follow steps).final = .ok y) ∧
          ∃ told y, x.drain = .ok (told, y) ∧ y.phase = .finished := by
  have loaded : Settings.ofEnvironment ⟨fun _ => none, fun _ => none⟩ = .ok .standard := rfl
  have builtin : ∀ p ∈ Plan.sample.expressions, ∃ f q, p.expression = Function.toExpression f q := by
    intro p hp
    obtain rfl := List.mem_singleton.mp hp
    exact ⟨.raw, "cpu", rfl⟩
  obtain ⟨beating, -, call, hcall, hall⟩ :=
    loaded_settings_never_break_off (Or.inr loaded) builtin (by decide) .flaky (fun _ => .batch)
  refine ⟨_, loaded, beating, call, hcall, fun x hx => ?_⟩
  obtain ⟨hsteps, hdrain, -⟩ := hall x hx
  exact ⟨hsteps, hdrain⟩

end SeriesStream
