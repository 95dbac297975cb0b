import SeriesStream.Proofs.Turns

namespace SeriesStream

def StreamEvent.isInfo : StreamEvent → Bool
  | info _ => true
  | _ => false

/-- The events that tell a course. After a fault nothing more is told, not even the end. -/
def eventsOf : List CourseStep → List StreamEvent
  | [] => [.close]
  | ⟨_, .error _⟩ :: _ => []
  | ⟨_, .ok (.error e)⟩ :: _ => [.error e.render, .close]
  | ⟨_, .ok (.ok b)⟩ :: rest =>
    if b.results.isEmpty then eventsOf rest else .data b.results :: eventsOf rest

def Turn.told : Turn → List StreamEvent
  | .event e => [e]
  | _ => []

inductive ConsumerStep
  | pull
  | sleep (duration : Nat)

/-- What a consumer was told, with the times, and the execution after it unless it broke off. The end
is told as `none`. -/
structure Watch where
  told : List (Nat × Option StreamEvent)
  final : Except Fault Execution

namespace Watch

def events (w : Watch) : List StreamEvent := w.told.filterMap (·.2)

/-- The events that are no heartbeats. -/
def results (w : Watch) : List StreamEvent := w.events.filter (!·.isInfo)

/-- The consumer was told the end. -/
def Drained (w : Watch) : Prop := ∃ t, (t, none) ∈ w.told

end Watch

namespace Execution

/-- A consumer takes its steps one after the other, until it is through or the execution breaks off. -/
def follow : List ConsumerStep → Execution → Watch
  | [], x => ⟨[], .ok x⟩
  | .sleep d :: steps, x => follow steps (x.sleep d)
  | .pull :: steps, x =>
    match x.pull with
    | .error fault => ⟨[], .error fault⟩
    | .ok (e, x') =>
      let rest := follow steps x'
      ⟨(x'.now, e) :: rest.told, rest.final⟩

/-- The events that are still to come besides heartbeats. -/
def future (x : Execution) : List StreamEvent :=
  match x.phase with
  | .streaming => eventsOf x.pipeline.course
  | .closing => [.close]
  | .finished => []

/-- An execution that is no longer streaming has its fetcher called off, and one that was counted has
told its end. -/
structure Sound (x : Execution) : Prop where
  pipeline : x.pipeline.Sound
  through : x.phase ≠ .streaming → x.pipeline.fetcher.finished = true
  counted : x.outcome.isSome = true → x.phase = .finished

/-- How an execution goes on from `x` to `y` while it tells some events. -/
structure Advances (x : Execution) (told : List StreamEvent) (y : Execution) : Prop where
  sound : y.Sound
  future : x.future = told.filter (!·.isInfo) ++ y.future
  course : y.pipeline.course <:+ x.pipeline.course
  requests : y.pipeline.allRequests = x.pipeline.allRequests

theorem Advances.trans {x y z : Execution} {es ds : List StreamEvent} (h : x.Advances es y)
    (h' : y.Advances ds z) : x.Advances (es ++ ds) z where
  sound := h'.sound
  future := by rw [h.future, h'.future, List.filter_append, List.append_assoc]
  course := h'.course.trans h.course
  requests := h'.requests.trans h.requests

theorem Advances.refl {x : Execution} (h : x.Sound) : x.Advances [] x :=
  ⟨h, by simp, List.suffix_refl _, rfl⟩

theorem advances_of_turn {x y : Execution} {t : Turn} (sound : x.Sound) (h : x.turn = .ok (t, y)) :
    x.Advances t.told y := by
  have hcases := turn_cases sound.pipeline
  rw [h] at hcases
  cases hcases with
  | ended => exact .refl sound
  | closed phase =>
    have hf := sound.through (by simp [phase])
    exact ⟨⟨sound.pipeline, fun _ => hf, fun _ => rfl⟩, by simp [future, phase, Turn.told, StreamEvent.isInfo],
      List.suffix_refl _, rfl⟩
  | @beat p n _ phase waits reached nearer result =>
    obtain ⟨rfl, rfl⟩ := Prod.mk.inj result
    refine ⟨⟨waits.sound sound.pipeline, fun hp => absurd phase hp, ?_⟩, ?_, ?_, ?_⟩
    · exact fun hc => absurd (sound.counted hc) (by simp [phase])
    · simp [future, phase, Turn.told, StreamEvent.isInfo, waits.course_eq]
    · simp [waits.course_eq]
    · exact waits.allRequests_eq
  | @handed p q next n _ phase waits polled reacted =>
    have hands := Pipeline.hands_of_poll (waits.sound sound.pipeline) polled
    have hcounted : x.outcome.isSome = false := by
      rw [Bool.eq_false_iff]
      exact fun hc => absurd (sound.counted hc) (by simp [phase])
    have hrequests := hands.requests.trans waits.allRequests_eq
    obtain ⟨w, hcourse⟩ := hands.course
    rw [waits.course_eq] at hcourse
    have hsuffix : q.course <:+ x.pipeline.course := ⟨_, hcourse.symm⟩
    cases reacted with
    | through =>
      have hq : q.course = [] :=
        Pipeline.course_eq_nil (hands.sound.fetcher.line_eq_nil (hands.finished (by simp)))
      refine ⟨⟨hands.sound, fun _ => hands.finished (by simp), by simp [hcounted]⟩, ?_, hsuffix, hrequests⟩
      simp [future, phase, hcourse, hq, eventsOf, Turn.told]
    | failure e =>
      refine ⟨⟨hands.sound, fun _ => hands.finished (by simp), by simp [hcounted]⟩, ?_, hsuffix, hrequests⟩
      simp [future, phase, hcourse, eventsOf, Turn.told, StreamEvent.isInfo]
    | blank hb =>
      refine ⟨⟨hands.sound, fun hp => absurd phase hp, by simp [hcounted]⟩, ?_, hsuffix, hrequests⟩
      simp [future, phase, hcourse, eventsOf, hb, Turn.told]
    | shown hb =>
      refine ⟨⟨hands.sound, fun hp => absurd phase hp, by simp [hcounted]⟩, ?_, hsuffix, hrequests⟩
      simp [future, phase, hcourse, eventsOf, hb, Turn.told, StreamEvent.isInfo]

/-- A bound on the events that are still to come besides heartbeats. -/
def remaining (x : Execution) : Nat :=
  match x.phase with
  | .streaming => x.pipeline.fetcher.line.length + 2
  | .closing => 1
  | .finished => 0

/-- How far a turn gets, by what it tells. -/
theorem phase_of_turn {x y : Execution} {t : Turn} (sound : x.Sound) (h : x.turn = .ok (t, y)) :
    match t with
    | .ended => x.phase = .finished ∧ y = x
    | .silent => x.phase = .streaming ∧ y.phase ≠ .finished ∧ y.remaining < x.remaining
    | .event (.info _) => x.phase = .streaming ∧ y.phase = .streaming ∧ y.remaining = x.remaining
    | .event (.data results) =>
      x.phase = .streaming ∧ y.phase = .streaming ∧ results ≠ [] ∧ y.remaining < x.remaining
    | .event (.error _) => x.phase = .streaming ∧ y.phase = .closing ∧ y.remaining < x.remaining
    | .event .close => x.phase = .closing ∧ y.phase = .finished := by
  have hcases := turn_cases sound.pipeline
  rw [h] at hcases
  cases hcases with
  | ended phase => exact ⟨phase, rfl⟩
  | closed phase => exact ⟨phase, rfl⟩
  | beat phase waits _ _ result =>
    obtain ⟨rfl, rfl⟩ := Prod.mk.inj result
    exact ⟨phase, phase, by simp [remaining, phase, waits.fetcher_line_eq]⟩
  | @handed p q next n _ phase waits polled reacted =>
    have hands := Pipeline.hands_of_poll (waits.sound sound.pipeline) polled
    have hline := hands.line
    rw [waits.fetcher_line_eq] at hline
    have hless (hnext : next ≠ none) : q.fetcher.line.length + 2 < x.remaining := by
      have := hline hnext
      simp only [remaining, phase]
      omega
    cases reacted with
    | through => exact ⟨phase, by simp, by simp [remaining, phase]⟩
    | failure e => exact ⟨phase, rfl, by simp [remaining, phase]⟩
    | blank => exact ⟨phase, by simp [phase], by simpa [remaining, phase] using hless (by simp)⟩
    | shown hb =>
      exact ⟨phase, phase, by simpa using hb, by simpa [remaining, phase] using hless (by simp)⟩

/-- Turns that tell nothing lead from the first execution to the second. -/
inductive Silently : Execution → Execution → Prop
  | refl (x : Execution) : Silently x x
  | turn {x y z : Execution} (first : x.turn = .ok (.silent, y)) (rest : Silently y z) : Silently x z

/-- What a pull can do: after some silent turns one that tells something, or ends, or breaks off. -/
inductive Pulled (x : Execution) : Except Fault (Option StreamEvent × Execution) → Prop
  | past (counted : x.outcome.isSome = true) : Pulled x (.ok (none, x))
  | event {y z : Execution} {e : StreamEvent} (quiet : Silently x y)
      (turn : y.turn = .ok (.event e, z)) :
      Pulled x (.ok (some e, { z with events := z.events.count e.kind }))
  | ended {y : Execution} (quiet : Silently x y) (turn : y.turn = .ok (.ended, y)) :
      Pulled x (.ok (none, y.drop))
  | broken {y : Execution} {fault : Fault} (quiet : Silently x y) (turn : y.turn = .error fault) :
      Pulled x (.error fault)

theorem Pulled.after_silent {x y : Execution} {r : Except Fault (Option StreamEvent × Execution)}
    (h : y.Pulled r) (first : x.turn = .ok (.silent, y)) (open_ : y.outcome.isSome = false) :
    x.Pulled r := by
  cases h with
  | past counted => simp [open_] at counted
  | event quiet turn => exact .event (.turn first quiet) turn
  | ended quiet turn => exact .ended (.turn first quiet) turn
  | broken quiet turn => exact .broken (.turn first quiet) turn

theorem remaining_pos {x : Execution} (h : x.phase ≠ .finished) : 0 < x.remaining := by
  unfold remaining
  split <;> simp_all

theorem pullWithin_cases {n : Nat} {x : Execution} (sound : x.Sound) (hpos : 0 < n)
    (henough : x.remaining ≤ n) : x.Pulled (pullWithin n x) := by
  induction n generalizing x with
  | zero => omega
  | succ n ih =>
    cases ht : x.turn with
    | error fault =>
      simpa [pullWithin, ht, bind, Except.bind] using Pulled.broken (.refl x) ht
    | ok result =>
      obtain ⟨t, y⟩ := result
      have hphase := phase_of_turn sound ht
      cases t with
      | event e =>
        simpa [pullWithin, ht, bind, Except.bind, pure, Except.pure] using Pulled.event (.refl x) ht
      | ended =>
        obtain ⟨_, rfl⟩ := hphase
        simpa [pullWithin, ht, bind, Except.bind, pure, Except.pure] using Pulled.ended (.refl y) ht
      | silent =>
        have hy := (advances_of_turn sound ht).sound
        obtain ⟨_, hgoing, hless⟩ := hphase
        have hleft := remaining_pos hgoing
        have hopen : y.outcome.isSome = false := by
          rw [Bool.eq_false_iff]
          exact fun hc => hgoing (hy.counted hc)
        have hrest := (ih hy (by omega) (by omega)).after_silent ht hopen
        simpa [pullWithin, ht, bind, Except.bind] using hrest

theorem remaining_le (x : Execution) : x.remaining ≤ x.windowsLeft + 2 := by
  have hline : x.pipeline.fetcher.line.length = x.windowsLeft := x.pipeline.fetcher.length_line
  unfold remaining
  split <;> omega

theorem pull_cases {x : Execution} (sound : x.Sound) : x.Pulled x.pull := by
  unfold pull
  split
  next counted => exact .past counted
  next => exact pullWithin_cases sound (by omega) x.remaining_le

theorem Silently.advances {x y : Execution} (h : Silently x y) (sound : x.Sound) :
    x.Advances [] y := by
  induction h with
  | refl => exact .refl sound
  | turn first _ ih =>
    have hfirst := advances_of_turn sound first
    exact hfirst.trans (ih hfirst.sound)

theorem advances_drop {x : Execution} (sound : x.Sound) (phase : x.phase = .finished) :
    x.Advances [] x.drop := by
  have hline := sound.pipeline.fetcher.line_eq_nil (sound.through (by simp [phase]))
  have hx : x.pipeline.course = [] := Pipeline.course_eq_nil hline
  have hy : x.drop.pipeline.course = [] := Pipeline.course_eq_nil (Fetcher.line_cancel _)
  refine ⟨⟨⟨fun _ => ⟨rfl, rfl⟩, fun _ => rfl⟩, fun _ => rfl, fun _ => phase⟩, ?_, by simp [hx, hy], ?_⟩
  · simp [future, phase, drop]
  · simp only [Pipeline.allRequests, hx, hy, List.drop_nil]
    rfl

/-- A pull tells what the course has next, if it tells anything but a heartbeat. -/
theorem advances_of_pull {x y : Execution} {e : Option StreamEvent} (sound : x.Sound)
    (h : x.pull = .ok (e, y)) : x.Advances e.toList y := by
  have hcases := pull_cases sound
  rw [h] at hcases
  cases hcases with
  | past => exact .refl sound
  | @event y z e quiet turn =>
    have hquiet := quiet.advances sound
    have hturn := advances_of_turn hquiet.sound turn
    have hboth := hquiet.trans hturn
    exact ⟨⟨hboth.sound.pipeline, hboth.sound.through, hboth.sound.counted⟩, hboth.future,
      hboth.course, hboth.requests⟩
  | ended quiet turn =>
    have hquiet := quiet.advances sound
    exact hquiet.trans (advances_drop hquiet.sound (phase_of_turn hquiet.sound turn).1)

theorem advances_sleep {x : Execution} (sound : x.Sound) (d : Nat) : x.Advances [] (x.sleep d) := by
  have waits : x.pipeline.Waits (x.pipeline.sleep d) := .fetcher .refl (Fetcher.Waits.refl.waitUntil _)
  refine ⟨⟨waits.sound sound.pipeline, fun hp => ?_, sound.counted⟩, ?_, ?_, waits.allRequests_eq⟩
  · exact (Fetcher.Waits.refl.waitUntil _).finished (sound.through hp)
  · simp [future, sleep, waits.course_eq]
  · simp [sleep, waits.course_eq]

theorem Silently.phase {x y : Execution} (h : Silently x y) (sound : x.Sound) :
    y = x ∨ x.phase = .streaming ∧ y.phase ≠ .finished := by
  induction h with
  | refl => exact Or.inl rfl
  | turn first _ ih =>
    obtain ⟨hx, hy, _⟩ := phase_of_turn sound first
    rcases ih (advances_of_turn sound first).sound with rfl | ⟨_, hz⟩
    · exact Or.inr ⟨hx, hy⟩
    · exact Or.inr ⟨hx, hz⟩

theorem future_of_broken {x : Execution} {fault : Fault} (sound : x.Sound)
    (h : x.pull = .error fault) :
    x.phase = .streaming ∧ x.future = [] ∧ ∃ w, ⟨w, .error fault⟩ ∈ x.pipeline.course := by
  have hcases := pull_cases sound
  rw [h] at hcases
  cases hcases with
  | @broken y _ quiet turn =>
    have hquiet := quiet.advances sound
    have hturn := turn_cases hquiet.sound.pipeline
    rw [turn] at hturn
    cases hturn with
    | broken phase waits polled =>
      obtain ⟨w, hw⟩ := Pipeline.course_of_broken (waits.sound hquiet.sound.pipeline) polled
      rw [waits.course_eq] at hw
      have hfuture : y.future = [] := by simp [future, phase, hw, eventsOf]
      refine ⟨?_, by simpa [hfuture] using hquiet.future, w, hquiet.course.subset (by simp [hw])⟩
      rcases quiet.phase sound with rfl | ⟨hx, _⟩
      · exact phase
      · exact hx

/-- What a consumer was told is the beginning of what there was to tell, and nothing is missing if the
execution broke off. -/
theorem follow_cases {x : Execution} (sound : x.Sound) (steps : List ConsumerStep) :
    (∃ y, (x.follow steps).final = .ok y ∧ x.Advances (x.follow steps).events y) ∨
      ∃ fault w, (x.follow steps).final = .error fault ∧ ⟨w, .error fault⟩ ∈ x.pipeline.course ∧
        x.future = (x.follow steps).results := by
  induction steps generalizing x with
  | nil => exact Or.inl ⟨x, rfl, .refl sound⟩
  | cons step steps ih =>
    cases step with
    | sleep d =>
      have hsleep := advances_sleep sound d
      rcases ih hsleep.sound with ⟨y, hy, hadv⟩ | ⟨fault, w, hf, hw, hrest⟩
      · exact Or.inl ⟨y, hy, hsleep.trans hadv⟩
      · exact Or.inr ⟨fault, w, hf, hsleep.course.subset hw, by simpa [hrest, follow] using hsleep.future⟩
    | pull =>
      cases hp : x.pull with
      | error fault =>
        obtain ⟨_, hfuture, w, hw⟩ := future_of_broken sound hp
        exact Or.inr ⟨fault, w, by simp [follow, hp], hw, by
          simp [hfuture, follow, hp, Watch.results, Watch.events]⟩
      | ok result =>
        obtain ⟨e, y⟩ := result
        have hpull := advances_of_pull sound hp
        have hevents : (x.follow (.pull :: steps)).events = e.toList ++ (y.follow steps).events := by
          cases e <;> simp [follow, hp, Watch.events]
        rcases ih hpull.sound with ⟨z, hz, hadv⟩ | ⟨fault, w, hf, hw, hrest⟩
        · exact Or.inl ⟨z, by simpa [follow, hp] using hz, hevents ▸ hpull.trans hadv⟩
        · refine Or.inr ⟨fault, w, by simpa [follow, hp] using hf, hpull.course.subset hw, ?_⟩
          rw [hpull.future, hrest, Watch.results, Watch.results, hevents, List.filter_append]

theorem phase_of_pull {x y : Execution} {e : Option StreamEvent} (sound : x.Sound)
    (h : x.pull = .ok (e, y)) :
    match e with
    | none => x.phase = .finished ∧ y.phase = .finished
    | some (.info _) => x.phase = .streaming ∧ y.phase = .streaming
    | some (.data results) => x.phase = .streaming ∧ y.phase = .streaming ∧ results ≠ []
    | some (.error _) => x.phase = .streaming ∧ y.phase = .closing
    | some .close => x.phase ≠ .finished ∧ y.phase = .finished := by
  have hcases := pull_cases sound
  rw [h] at hcases
  cases hcases with
  | past counted => exact ⟨sound.counted counted, sound.counted counted⟩
  | @event y z e quiet turn =>
    have hturn := phase_of_turn (quiet.advances sound).sound turn
    have hquiet := quiet.phase sound
    have hopen : y.phase = .streaming → x.phase = .streaming := by
      intro hy
      rcases hquiet with rfl | ⟨hx, _⟩
      · exact hy
      · exact hx
    cases e with
    | info => exact ⟨hopen hturn.1, hturn.2.1⟩
    | data => exact ⟨hopen hturn.1, hturn.2.1, hturn.2.2.1⟩
    | error => exact ⟨hopen hturn.1, hturn.2.1⟩
    | close =>
      refine ⟨?_, hturn.2⟩
      rcases hquiet with rfl | ⟨hx, _⟩
      · simp [hturn.1]
      · simp [hx]
  | @ended y quiet turn =>
    have hturn := phase_of_turn (quiet.advances sound).sound turn
    rcases quiet.phase sound with rfl | ⟨_, hy⟩
    · exact ⟨hturn.1, hturn.1⟩
    · exact absurd hturn.1 hy

theorem follow_of_finished {x : Execution} (sound : x.Sound) (phase : x.phase = .finished)
    (steps : List ConsumerStep) :
    (∃ y, (x.follow steps).final = .ok y ∧ y.Sound ∧ y.phase = .finished) ∧
      ∀ e ∈ (x.follow steps).told, e.2 = none := by
  induction steps generalizing x with
  | nil => exact ⟨⟨x, rfl, sound, phase⟩, by simp [follow]⟩
  | cons step steps ih =>
    cases step with
    | sleep d => exact ih (advances_sleep sound d).sound phase
    | pull =>
      cases hp : x.pull with
      | error fault => exact absurd (future_of_broken sound hp).1 (by simp [phase])
      | ok result =>
        obtain ⟨e, y⟩ := result
        have hphase := phase_of_pull sound hp
        cases e with
        | none =>
          obtain ⟨hfinal, htold⟩ := ih (advances_of_pull sound hp).sound hphase.2
          simp only [follow, hp]
          exact ⟨hfinal, by simpa using htold⟩
        | some e => cases e <;> simp [phase] at hphase

theorem future_of_drained {x : Execution} (sound : x.Sound) {steps : List ConsumerStep}
    (h : (x.follow steps).Drained) :
    ∃ y, (x.follow steps).final = .ok y ∧ y.Sound ∧ y.phase = .finished := by
  induction steps generalizing x with
  | nil =>
    obtain ⟨t, ht⟩ := h
    simp [follow] at ht
  | cons step steps ih =>
    cases step with
    | sleep d => exact ih (advances_sleep sound d).sound h
    | pull =>
      obtain ⟨t, ht⟩ := h
      cases hp : x.pull with
      | error fault => simp [follow, hp] at ht
      | ok result =>
        obtain ⟨e, y⟩ := result
        have hy := (advances_of_pull sound hp).sound
        simp only [follow, hp, List.mem_cons] at ht ⊢
        rcases ht with heq | ht
        · obtain ⟨_, rfl⟩ := Prod.mk.inj heq
          exact (follow_of_finished hy (phase_of_pull sound hp).2 steps).1
        · exact ih hy ⟨t, ht⟩

/-- Who was told the end was told all there was to tell. -/
theorem results_of_drained {x : Execution} (sound : x.Sound) {steps : List ConsumerStep}
    (h : (x.follow steps).Drained) : (x.follow steps).results = x.future := by
  obtain ⟨y, hy, _, phase⟩ := future_of_drained sound h
  rcases follow_cases sound steps with ⟨z, hz, hadv⟩ | ⟨fault, w, hf, _⟩
  · obtain rfl : y = z := Except.ok.inj (hy.symm.trans hz)
    have hfuture : y.future = [] := by simp [future, phase]
    rw [hadv.future, hfuture, List.append_nil, Watch.results]
  · simp [hy] at hf

theorem results_prefix {x : Execution} (sound : x.Sound) (steps : List ConsumerStep) :
    (x.follow steps).results <+: x.future := by
  rcases follow_cases sound steps with ⟨y, _, hadv⟩ | ⟨fault, w, _, _, hfuture⟩
  · exact ⟨y.future, hadv.future.symm⟩
  · exact hfuture ▸ List.prefix_refl _

end Execution

def Plan.source (p : Plan) (backend : Backend) (options : StreamOptions) : Source :=
  ⟨backend, p.baseQueries, options.timeout⟩

/-- What will come of the windows of a plan. -/
def Plan.courseOver (p : Plan) (windows : List Window) (backend : Backend) (options : StreamOptions) :
    List CourseStep :=
  courseOf ((p.source backend options).fetches 0 windows) (Evaluator.ofPlan p.expressions)

/-- An execution that has all windows of its plan before it. -/
structure Started (plan : Plan) (windows : List Window) (backend : Backend) (options : StreamOptions)
    (x : Execution) : Prop where
  cut : partition plan.step plan.start plan.stop options.multiplier = .ok windows
  options_eq : x.options = options
  beating : 0 < x.options.heartbeat
  sound : x.Sound
  phase : x.phase = .streaming
  course : x.pipeline.course = plan.courseOver windows backend options
  requests : x.pipeline.allRequests =
    (plan.courseOver windows backend options).map fun s => ⟨plan.baseQueries, s.window⟩

/-- The execution of a plan before its first event. -/
def Plan.begun (p : Plan) (windows : List Window) (backend : Backend) (options : StreamOptions)
    (lead : Nat → Lead) : Execution where
  pipeline := ⟨Fetcher.create backend p.baseQueries windows options.timeout, Evaluator.ofPlan p.expressions⟩
  options := options
  lead := lead
  choices := 0
  nextBeat := 0
  phase := .streaming
  failed := false
  events := OrderedMap.empty
  outcome := none

theorem begun_of_execute {plan : Plan} {backend : Backend} {options : StreamOptions} {lead : Nat → Lead}
    {x : Execution} (h : execute plan backend options lead = .ok (.ok x)) :
    ∃ windows, partition plan.step plan.start plan.stop options.multiplier = .ok windows ∧
      0 < options.heartbeat ∧ x = plan.begun windows backend options lead := by
  unfold execute at h
  split at h
  next e _ => cases Except.ok.inj h
  next windows hwindows =>
    split at h
    next => cases h
    next hbeat => exact ⟨windows, hwindows, Nat.pos_of_ne_zero hbeat, (Except.ok.inj (Except.ok.inj h)).symm⟩

theorem execute_of_cut {plan : Plan} {windows : List Window} (backend : Backend) {options : StreamOptions}
    (lead : Nat → Lead) (cut : partition plan.step plan.start plan.stop options.multiplier = .ok windows)
    (beating : 0 < options.heartbeat) :
    execute plan backend options lead = .ok (.ok (plan.begun windows backend options lead)) := by
  simp only [execute, cut, Nat.ne_of_gt beating, ↓reduceIte, Plan.begun]

theorem started_begun {plan : Plan} {windows : List Window} (backend : Backend) {options : StreamOptions}
    (lead : Nat → Lead) (cut : partition plan.step plan.start plan.stop options.multiplier = .ok windows)
    (beating : 0 < options.heartbeat) :
    Started plan windows backend options (plan.begun windows backend options lead) := by
  refine ⟨cut, rfl, beating, ⟨⟨?_, ?_⟩, by simp [Plan.begun], by simp [Plan.begun]⟩, rfl, rfl, rfl⟩
  · simp [Plan.begun, Fetcher.Sound, Fetcher.create]
  · simp [Plan.begun, Evaluator.ofPlan, EvaluatorPhase.isTerminal]

theorem started_of_execute {plan : Plan} {backend : Backend} {options : StreamOptions}
    {lead : Nat → Lead} {x : Execution} (h : execute plan backend options lead = .ok (.ok x)) :
    ∃ windows, Started plan windows backend options x := by
  obtain ⟨windows, cut, beating, rfl⟩ := begun_of_execute h
  exact ⟨windows, started_begun backend lead cut beating⟩

theorem Started.future {plan : Plan} {windows : List Window} {backend : Backend} {options : StreamOptions}
    {x : Execution} (h : Started plan windows backend options x) :
    x.future = eventsOf (plan.courseOver windows backend options) := by
  simp [Execution.future, h.phase, h.course]

/-- Three windows of one step each under `StreamOptions.fine`. -/
def Plan.sample : Plan := ⟨0, 3000, 1000, [⟨"load", Function.raw.toExpression "cpu"⟩]⟩

def StreamOptions.fine : StreamOptions := ⟨10, 100, 1, "beat"⟩

/-- A backend that knows no samples, takes its time and refuses the second request. -/
def Backend.flaky : Backend := fun n _ =>
  ⟨some 25, if n = 1 then .refused ⟨.fetchFailed, "down"⟩ else .data OrderedMap.empty⟩

end SeriesStream
