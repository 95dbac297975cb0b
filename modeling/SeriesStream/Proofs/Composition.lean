import Mathlib.Data.List.Chain
import SeriesStream.Proofs.Evaluation
import SeriesStream.Proofs.Slots

namespace SeriesStream

/-- The window runs forward, in a step that a clock can show. -/
structure Window.Forward (w : Window) : Prop where
  start_le_stop : w.start ≤ w.stop
  step_pos : 0 < w.step
  step_le_latest : w.step ≤ Instant.latest

/-- What the expression makes of chunks one after the other, up to the first that it fails on. -/
def Expression.answers (x : Expression) (state : CarriedState) :
    List Chunk → List (Except Fault (Except QueryError Evaluation))
  | [] => []
  | c :: rest =>
    match x.evaluate c.window c.data state with
    | .ok (.ok evaluation) => .ok (.ok evaluation) :: x.answers evaluation.state rest
    | failure => [failure]

/-- The expression, fed the chunks from the first on, evaluates the one at `i`. -/
def Expression.YieldsAt (x : Expression) (chunks : List Chunk) (i : Nat) : Prop :=
  ∃ evaluation, (x.answers .empty chunks)[i]? = some (.ok (.ok evaluation))

/-- Slots behind others run when those have all yielded, and what they yield is joined to it. -/
theorem runSlots_append (c : Chunk) (front back : List Slot) :
    runSlots c (front ++ back) = (runSlots c front).bind fun first =>
      match first.outcome with
      | .error e => .ok ⟨first.slots ++ back, .error e⟩
      | .ok (results, filtered) => (runSlots c back).bind fun second =>
        .ok ⟨first.slots ++ second.slots,
          second.outcome.map fun (more, others) => (results ++ more, filtered + others)⟩ := by
  induction front with
  | nil =>
    cases hback : runSlots c back with
    | error fault => simp [runSlots, hback, Except.bind]
    | ok second =>
      obtain ⟨slots, outcome⟩ := second
      cases outcome <;> simp [runSlots, hback, Except.bind, Except.map]
  | cons slot front ih =>
    simp only [List.cons_append, runSlots, bind, Except.bind]
    cases slot.planned.expression.evaluate c.window c.data slot.state with
    | error fault => rfl
    | ok result =>
      cases result with
      | error e => rfl
      | ok evaluation =>
        cases hkept : keepInformative c.window evaluation.series with
        | error fault => simp [hkept]
        | ok kept =>
          simp only [hkept, ih, Except.bind]
          cases hfront : runSlots c front with
          | error fault => rfl
          | ok first =>
            obtain ⟨slots, outcome⟩ := first
            cases outcome with
            | error e => rfl
            | ok out =>
              simp only [Except.map, pure, Except.pure]
              cases runSlots c back with
              | error fault => rfl
              | ok second =>
                obtain ⟨others, outcome⟩ := second
                cases outcome with
                | error e => rfl
                | ok more => simp [List.append_assoc, Nat.add_assoc]

theorem stepGrid_of_forward {w : Window} (h : w.Forward) :
    ∃ grid, stepGrid w.start w.stop w.step = .ok grid := by
  by_cases hdvd : w.step ∣ w.start
  · exact ⟨_, stepGrid_of_dvd w.stop h.step_pos hdvd⟩
  · exact ⟨_, stepGrid_of_not_dvd w.stop h.step_pos h.step_le_latest hdvd⟩

theorem keepInformative_of_forward {w : Window} (h : w.Forward) (series : List TimeSeries) :
    ∃ kept, keepInformative w series = .ok kept := by
  obtain ⟨grid, hgrid⟩ := stepGrid_of_forward h
  have hle := h.start_le_stop
  have hpos := h.step_pos
  have hcheck (s : TimeSeries) : s.isAllNaN w.start w.stop w.step =
      .ok (grid.all fun t => (s.valueAt? t).all Float.isNaN) := by
    simp only [TimeSeries.isAllNaN, hgrid, bind, Except.bind, pure, Except.pure]
    rw [if_neg (by omega), if_neg (by omega)]
  exact ⟨_, keepInformative_of_check hcheck series⟩

namespace Evaluator

/-- What the evaluation of a chunk comes to: a fault, or an answer with the evaluator after it. -/
abbrev Outcome := Except Fault (Except QueryError WindowBatch × Evaluator)

/-- A batch with the evaluator after it. -/
structure Yield where
  batch : WindowBatch
  after : Evaluator

def Yield.outcome (y : Yield) : Outcome := .ok (.ok y.batch, y.after)

/-- The outcomes of chunks one after the other. Behind an error they go on, behind a fault not. -/
def feed (e : Evaluator) : List Chunk → List Outcome
  | [] => []
  | c :: rest => e.evaluate c ::
    match e.evaluate c with
    | .error _ => []
    | .ok (_, after) => after.feed rest

/-- The evaluator, fed the chunks from the first on, gives a batch for the one at `i`. -/
def YieldsAt (e : Evaluator) (chunks : List Chunk) (i : Nat) : Prop :=
  ∃ y : Yield, (e.feed chunks)[i]? = some y.outcome

/-- How the outcomes of several evaluators on a window make up that of one. -/
inductive Joined (w : Window) : List Outcome → Outcome → Prop
  /-- All give a batch. Their results stand behind one another, and so do their states. -/
  | batch {yields : List Yield} {whole : Evaluator}
      (slots : whole.slots = yields.flatMap (·.after.slots)) :
      Joined w (yields.map Yield.outcome) (.ok (.ok ⟨w, yields.flatMap (·.batch.results)⟩, whole))
  /-- The first that gives none fails with this error. -/
  | failed {yields : List Yield} {failure : QueryError} {part whole : Evaluator}
      {behind : List Outcome} :
      Joined w (yields.map Yield.outcome ++ .ok (.error failure, part) :: behind)
        (.ok (.error failure, whole))
  /-- The first that gives none breaks with this fault. -/
  | broken {yields : List Yield} {fault : Fault} {behind : List Outcome} :
      Joined w (yields.map Yield.outcome ++ .error fault :: behind) (.error fault)

/-- The chunk is the next one for the evaluator. -/
structure Ready (e : Evaluator) (c : Chunk) : Prop where
  running : e.phase.isTerminal = false
  next : ∀ s, e.nextStart = some s → s = c.window.start

theorem ready_ofPlan (expressions : List PlannedExpression) (c : Chunk) :
    (ofPlan expressions).Ready c :=
  ⟨rfl, fun _ hs => nomatch hs⟩

theorem Ready.evaluate_eq {e : Evaluator} {c : Chunk} (ready : e.Ready c) :
    e.evaluate c = (runSlots c e.slots).map fun run => match run.outcome with
      | .error failure => (.error failure, { e with slots := run.slots, phase := .failed })
      | .ok (results, filtered) => (.ok ⟨c.window, results⟩,
          ⟨run.slots, some c.window.stop, .idle, e.evaluated + 1, e.filtered + filtered⟩) := by
  cases hrun : runSlots c e.slots with
  | ok run => exact evaluate_of_run ready.running ready.next hrun
  | error fault =>
    have hnone : e.nextStart.filter (· ≠ c.window.start) = none :=
      Option.filter_eq_none_iff.mpr fun s hs => by simp [ready.next s hs]
    simp only [evaluate, ready.running, hnone, hrun]
    rfl

theorem Ready.yield_of_run {e : Evaluator} {c : Chunk} (ready : e.Ready c) {slots : List Slot}
    {out : List WindowSeries × Nat} (run : runSlots c e.slots = .ok ⟨slots, .ok out⟩) :
    ∃ after : Evaluator, after.slots = slots ∧
      e.evaluate c = Yield.outcome ⟨⟨c.window, out.1⟩, after⟩ := by
  rw [ready.evaluate_eq, run]
  exact ⟨_, rfl, rfl⟩

/-- The chunk was the next one, all slots yielded on it and the chunk behind it comes next. -/
theorem of_yield {e : Evaluator} {c : Chunk} {y : Yield} (h : e.evaluate c = y.outcome) :
    (∃ filtered, runSlots c e.slots = .ok ⟨y.after.slots, .ok (y.batch.results, filtered)⟩) ∧
      ∀ d : Chunk, c.window.stop = d.window.start → y.after.Ready d := by
  obtain ⟨b, after⟩ := y
  have hcases := e.evaluate_cases c
  rw [h, Yield.outcome] at hcases
  cases hcases with
  | batch _ _ run =>
    exact ⟨⟨_, run⟩, fun d hd => ⟨rfl, fun s hs => (Option.some.inj hs).symm.trans hd⟩⟩

theorem feed_succ (e : Evaluator) (c : Chunk) (rest : List Chunk) (i : Nat) :
    (e.feed (c :: rest))[i + 1]? = (e.evaluate c).toOption.bind fun out => (out.2.feed rest)[i]? := by
  rw [feed, List.getElem?_cons_succ]
  cases e.evaluate c <;> rfl

theorem yieldsAt_zero_iff {e : Evaluator} {c : Chunk} {rest : List Chunk} :
    e.YieldsAt (c :: rest) 0 ↔ ∃ y : Yield, e.evaluate c = y.outcome := by
  simp only [YieldsAt, feed, List.getElem?_cons_zero, Option.some.injEq]

theorem yieldsAt_succ_iff {e : Evaluator} {c : Chunk} {y : Yield} (h : e.evaluate c = y.outcome)
    {rest : List Chunk} {i : Nat} : e.YieldsAt (c :: rest) (i + 1) ↔ y.after.YieldsAt rest i := by
  simp only [YieldsAt, feed_succ, h, Yield.outcome, Except.toOption, Option.bind_some]

theorem not_yieldsAt_of_terminal {e : Evaluator} (h : e.phase.isTerminal = true) (chunks : List Chunk)
    (i : Nat) : ¬e.YieldsAt chunks i := by
  have hstays (c : Chunk) : e.evaluate c = .ok (.error (OrderError.terminal e.phase).toQueryError, e) := by
    simp [evaluate, h]
  induction chunks generalizing i with
  | nil => simp [YieldsAt, feed]
  | cons c rest ih =>
    cases i with
    | zero => simp [yieldsAt_zero_iff, hstays, Yield.outcome]
    | succ i => simpa [YieldsAt, feed_succ, hstays, Except.toOption] using ih i

/-- Parts that all give a batch run as one behind the other. -/
theorem run_of_yields {c : Chunk} {parts : List Evaluator} {yields : List Yield}
    (h : parts.map (·.evaluate c) = yields.map Yield.outcome) :
    ∃ filtered, runSlots c (parts.flatMap slots) =
      .ok ⟨yields.flatMap (·.after.slots), .ok (yields.flatMap (·.batch.results), filtered)⟩ := by
  induction parts generalizing yields with
  | nil =>
    obtain rfl : yields = [] := by simpa using h.symm
    exact ⟨0, rfl⟩
  | cons part parts ih =>
    obtain ⟨y, yields, rfl, hpart, hparts⟩ := List.map_eq_cons_iff.mp h.symm
    obtain ⟨⟨filtered, hrun⟩, -⟩ := of_yield hpart.symm
    obtain ⟨others, hrest⟩ := ih hparts.symm
    refine ⟨filtered + others, ?_⟩
    simp only [List.flatMap_cons, runSlots_append, hrun, hrest, Except.bind, Except.map]

/-- The outcomes are all batches, or there is a first that is none. -/
theorem yields_or_first (outcomes : List Outcome) :
    (∃ yields : List Yield, outcomes = yields.map Yield.outcome) ∨
      ∃ (yields : List Yield) (first : Outcome) (behind : List Outcome),
        outcomes = yields.map Yield.outcome ++ first :: behind ∧ ∀ y : Yield, first ≠ y.outcome := by
  induction outcomes with
  | nil => exact Or.inl ⟨[], rfl⟩
  | cons outcome rest ih =>
    by_cases hyield : ∃ y : Yield, outcome = y.outcome
    · obtain ⟨y, rfl⟩ := hyield
      rcases ih with ⟨yields, rfl⟩ | ⟨yields, first, behind, rfl, hfirst⟩
      · exact Or.inl ⟨y :: yields, rfl⟩
      · exact Or.inr ⟨y :: yields, first, behind, rfl, hfirst⟩
    · exact Or.inr ⟨[], outcome, rest, rfl, not_exists.mp hyield⟩

/-- An evaluator with the slots of several ones gives their batches as one. -/
theorem Ready.evaluate_of_yields {e : Evaluator} {parts : List Evaluator} {c : Chunk} {yields : List Yield}
    (ready : e.Ready c) (slots : e.slots = parts.flatMap slots)
    (h : parts.map (·.evaluate c) = yields.map Yield.outcome) :
    ∃ after : Evaluator, after.slots = yields.flatMap (·.after.slots) ∧
      e.evaluate c = Yield.outcome ⟨⟨c.window, yields.flatMap (·.batch.results)⟩, after⟩ := by
  obtain ⟨filtered, hrun⟩ := run_of_yields h
  exact ready.yield_of_run (slots ▸ hrun)

/-- An evaluator with the slots of several ones evaluates a chunk as they do together. -/
theorem Ready.joined {e : Evaluator} {parts : List Evaluator} {c : Chunk} (ready : e.Ready c)
    (all : ∀ p ∈ parts, p.Ready c) (slots : e.slots = parts.flatMap slots) :
    Joined c.window (parts.map (·.evaluate c)) (e.evaluate c) := by
  rcases yields_or_first (parts.map (·.evaluate c)) with
    ⟨yields, hyields⟩ | ⟨yields, first, behind, hsplit, hfirst⟩
  · obtain ⟨after, hslots, heval⟩ := ready.evaluate_of_yields slots hyields
    rw [hyields, heval]
    exact .batch hslots
  · obtain ⟨front, tail, rfl, hfront, htail⟩ := List.map_eq_append_iff.mp hsplit
    obtain ⟨part, back, rfl, rfl, rfl⟩ := List.map_eq_cons_iff.mp htail
    obtain ⟨filtered, hrun⟩ := run_of_yields hfront
    have hpart : part.Ready c := all part (by simp)
    rw [hsplit, ready.evaluate_eq, slots, List.flatMap_append, List.flatMap_cons, runSlots_append, hrun,
      runSlots_append]
    rw [hpart.evaluate_eq] at hfirst ⊢
    cases hrunPart : runSlots c part.slots with
    | error fault => exact .broken
    | ok run =>
      obtain ⟨after, outcome⟩ := run
      cases outcome with
      | error failure => exact .failed
      | ok results =>
        rw [hrunPart] at hfirst
        exact absurd rfl (hfirst ⟨_, _⟩)

/-- What was joined goes on joined: as long as the parts give a batch, one evaluator with their slots
does what they do together. -/
theorem joined_feed {e : Evaluator} {parts : List Evaluator} {chunks : List Chunk}
    (contiguous : chunks.IsChain fun c d => c.window.stop = d.window.start)
    (ready : ∀ c ∈ chunks.head?, e.Ready c) (all : ∀ c ∈ chunks.head?, ∀ p ∈ parts, p.Ready c)
    (slots : e.slots = parts.flatMap slots) {i : Nat} {c : Chunk} (hc : chunks[i]? = some c)
    (yielded : ∀ j < i, ∀ p ∈ parts, p.YieldsAt chunks j) :
    ∃ column outcome, parts.map (fun p => (p.feed chunks)[i]?) = column.map some ∧
      (e.feed chunks)[i]? = some outcome ∧ Joined c.window column outcome := by
  induction chunks generalizing e parts i with
  | nil => simp at hc
  | cons d rest ih =>
    have hready := ready d rfl
    have hall := all d rfl
    obtain ⟨hnext, hrest⟩ := List.isChain_cons.mp contiguous
    cases i with
    | zero =>
      obtain rfl : d = c := by simpa using hc
      exact ⟨parts.map (·.evaluate d), e.evaluate d, by simp [feed], rfl, hready.joined hall slots⟩
    | succ i =>
      obtain ⟨yields, hyields⟩ : ∃ yields : List Yield, parts.map (·.evaluate d) = yields.map Yield.outcome := by
        rcases yields_or_first (parts.map (·.evaluate d)) with hyields | ⟨yields, first, behind, hsplit, hfirst⟩
        · exact hyields
        · have hmem : first ∈ parts.map (·.evaluate d) := by simp [hsplit]
          obtain ⟨p, hp, rfl⟩ := List.mem_map.mp hmem
          obtain ⟨y, hy⟩ := yieldsAt_zero_iff.mp (yielded 0 (by omega) p hp)
          exact absurd hy (hfirst y)
      have hpart : ∀ y ∈ yields, ∃ p ∈ parts, p.evaluate d = y.outcome := fun y hy =>
        List.mem_map.mp (hyields ▸ List.mem_map_of_mem hy)
      obtain ⟨after, hslots, heval⟩ := hready.evaluate_of_yields slots hyields
      have hcolumn : parts.map (fun p => (p.feed (d :: rest))[i + 1]?) =
          (yields.map Yield.after).map fun p => (p.feed rest)[i]? :=
        calc parts.map (fun p => (p.feed (d :: rest))[i + 1]?)
          _ = (parts.map (·.evaluate d)).map fun outcome =>
                outcome.toOption.bind fun out => (out.2.feed rest)[i]? := by
            simp only [feed_succ, List.map_map, Function.comp_def]
          _ = (yields.map Yield.after).map fun p => (p.feed rest)[i]? := by
            simp only [hyields, List.map_map, Function.comp_def]
            rfl
      rw [hcolumn, feed_succ, heval]
      refine ih hrest (fun c hc' => (of_yield heval).2 c (hnext c hc')) (fun c hc' p hp => ?_)
        (by rw [hslots, List.flatMap_map]) (by simpa using hc) (fun j hj p hp => ?_)
      · obtain ⟨y, hy, rfl⟩ := List.mem_map.mp hp
        obtain ⟨q, -, hq⟩ := hpart y hy
        exact (of_yield hq).2 c (hnext c hc')
      · obtain ⟨y, hy, rfl⟩ := List.mem_map.mp hp
        obtain ⟨q, hq, hyq⟩ := hpart y hy
        exact (yieldsAt_succ_iff hyq).mp (yielded (j + 1) (by omega) q hq)

/-- One slot by itself: either its expression yields and so does the evaluator, or it fails and the
evaluator yields no more. -/
theorem Ready.evaluate_single {e : Evaluator} {c : Chunk} (ready : e.Ready c) (forward : c.window.Forward)
    {slot : Slot} (slots : e.slots = [slot]) :
    (∃ (ev : Evaluation) (y : Yield), slot.evaluate c = .ok (.ok ev) ∧ e.evaluate c = y.outcome ∧
      y.after.slots = [{ slot with state := ev.state }]) ∨
    (∀ ev, slot.evaluate c ≠ .ok (.ok ev)) ∧ ∀ rest i, ¬e.YieldsAt (c :: rest) i := by
  cases hslot : slot.evaluate c with
  | error fault =>
    have hrun : runSlots c e.slots = .error fault := by
      simp only [slots, runSlots, show slot.planned.expression.evaluate c.window c.data slot.state = _ from hslot,
        bind, Except.bind]
    have heval : e.evaluate c = .error fault := by rw [ready.evaluate_eq, hrun]; rfl
    refine Or.inr ⟨by simp, fun rest i => ?_⟩
    cases i with
    | zero => simp [yieldsAt_zero_iff, heval, Yield.outcome]
    | succ i => simp [YieldsAt, feed_succ, heval, Except.toOption]
  | ok answer =>
    have hanswer : slot.planned.expression.evaluate c.window c.data slot.state = .ok answer := hslot
    cases answer with
    | error failure =>
      obtain ⟨after, hrun⟩ : ∃ after, runSlots c e.slots =
          .ok ⟨after, .error (failure.within slot.planned.name)⟩ := by
        simp only [slots, runSlots, hanswer, bind, Except.bind]
        exact ⟨_, rfl⟩
      have heval : e.evaluate c = .ok (.error (failure.within slot.planned.name),
          { e with slots := after, phase := .failed }) := by
        rw [ready.evaluate_eq, hrun]
        rfl
      refine Or.inr ⟨by simp, fun rest i => ?_⟩
      cases i with
      | zero => simp [yieldsAt_zero_iff, heval, Yield.outcome]
      | succ i =>
        simp only [YieldsAt, feed_succ, heval, Except.toOption, Option.bind_some]
        exact not_yieldsAt_of_terminal rfl rest i
    | ok ev =>
      obtain ⟨⟨kept, filtered⟩, hkept⟩ := keepInformative_of_forward forward ev.series
      obtain ⟨out, hrun⟩ : ∃ out, runSlots c e.slots = .ok ⟨[{ slot with state := ev.state }], .ok out⟩ := by
        simp only [slots, runSlots, hanswer, hkept, bind, Except.bind]
        exact ⟨_, rfl⟩
      obtain ⟨after, hslots, heval⟩ := ready.yield_of_run hrun
      exact Or.inl ⟨ev, _, rfl, heval, hslots⟩

/-- The evaluator of one expression gives batches for the chunks that the expression evaluates. -/
theorem yieldsAt_iff_of_single {e : Evaluator} {p : PlannedExpression} {state : CarriedState}
    {chunks : List Chunk} (contiguous : chunks.IsChain fun c d => c.window.stop = d.window.start)
    (forward : ∀ c ∈ chunks, c.window.Forward) (ready : ∀ c ∈ chunks.head?, e.Ready c)
    (slots : e.slots = [⟨p, state⟩]) (i : Nat) :
    e.YieldsAt chunks i ↔ ∃ ev, (p.expression.answers state chunks)[i]? = some (.ok (.ok ev)) := by
  induction chunks generalizing e state i with
  | nil => simp [YieldsAt, feed, Expression.answers]
  | cons c rest ih =>
    obtain ⟨hnext, hrest⟩ := List.isChain_cons.mp contiguous
    obtain ⟨hforward, hforwards⟩ := List.forall_mem_cons.mp forward
    rcases (ready c rfl).evaluate_single hforward slots with ⟨ev, y, hev, hy, hslots⟩ | ⟨hnone, hfails⟩
    · have hev' : p.expression.evaluate c.window c.data state = .ok (.ok ev) := hev
      simp only [Expression.answers, hev']
      cases i with
      | zero => exact iff_of_true (yieldsAt_zero_iff.mpr ⟨y, hy⟩) ⟨ev, rfl⟩
      | succ i =>
        rw [yieldsAt_succ_iff hy]
        exact ih hrest hforwards (fun d hd => (of_yield hy).2 d (hnext d hd)) hslots i
    · refine iff_of_false (hfails rest i) ?_
      rintro ⟨ev, hev⟩
      unfold Expression.answers at hev
      split at hev
      next ev' hev' => exact hnone ev' hev'
      next failure _ =>
        cases i with
        | zero => exact hnone ev (by simpa [Slot.evaluate] using hev)
        | succ i => simp at hev

end Evaluator

/-- A plan is the composition of its expressions. An evaluator of one expression gives batches for as
long as the expression does not fail. For as long as they all do, the evaluator of the plan gives for each
chunk their results one behind the other, with their states; on the first chunk where one of them does
not, it ends as the first of these in the plan does. -/
theorem plan_is_composed_of_expressions {expressions : List PlannedExpression} {chunks : List Chunk}
    (contiguous : chunks.IsChain fun c d => c.window.stop = d.window.start)
    (forward : ∀ c ∈ chunks, c.window.Forward) :
    (∀ p ∈ expressions, ∀ i,
      (Evaluator.ofPlan [p]).YieldsAt chunks i ↔ p.expression.YieldsAt chunks i) ∧
    ∀ i c, chunks[i]? = some c →
      (∀ j < i, ∀ p ∈ expressions, (Evaluator.ofPlan [p]).YieldsAt chunks j) →
      ∃ column outcome,
        (expressions.map fun p => ((Evaluator.ofPlan [p]).feed chunks)[i]?) = column.map some ∧
        ((Evaluator.ofPlan expressions).feed chunks)[i]? = some outcome ∧
        Evaluator.Joined c.window column outcome := by
  refine ⟨fun p _ i => ?_, fun i c hc yielded => ?_⟩
  · exact Evaluator.yieldsAt_iff_of_single contiguous forward
      (fun c _ => Evaluator.ready_ofPlan [p] c) rfl i
  · have hslots : (Evaluator.ofPlan expressions).slots =
        (expressions.map fun p => Evaluator.ofPlan [p]).flatMap Evaluator.slots := by
      rw [List.flatMap_map]
      exact List.map_eq_flatMap
    have hjoined := Evaluator.joined_feed contiguous (fun c _ => Evaluator.ready_ofPlan expressions c)
      (fun c _ e he => by
        obtain ⟨p, -, rfl⟩ := List.mem_map.mp he
        exact Evaluator.ready_ofPlan [p] c)
      hslots hc (fun j hj e he => by
        obtain ⟨p, hp, rfl⟩ := List.mem_map.mp he
        exact yielded j hj p hp)
    simpa only [List.map_map, Function.comp_def] using hjoined

/-- An expression that knows nothing of the time from the first second on. -/
def Expression.shortSighted : Expression where
  baseQueries := ["cpu"]
  evaluate w _ state :=
    .ok (if w.start < 1000 then .ok ⟨[], state⟩ else .error ⟨.evaluation, "out of sight"⟩)

theorem composed_plan_tells_first_failure :
    let expressions : List PlannedExpression :=
      [⟨"load", Function.runningSum.toExpression "cpu"⟩, ⟨"load", .shortSighted⟩, ⟨"tail", .shortSighted⟩]
    let chunks : List Chunk := [⟨⟨0, 1000, 1000⟩, OrderedMap.empty⟩, ⟨⟨1000, 2000, 1000⟩, OrderedMap.empty⟩]
    (chunks.IsChain fun c d => c.window.stop = d.window.start) ∧ (∀ c ∈ chunks, c.window.Forward) ∧
    (∀ p ∈ expressions, (Evaluator.ofPlan [p]).YieldsAt chunks 0) ∧
    ∃ column whole,
      (expressions.map fun p => ((Evaluator.ofPlan [p]).feed chunks)[1]?) = column.map some ∧
      ((Evaluator.ofPlan expressions).feed chunks)[1]? =
        some (.ok (.error ⟨.evaluation, "expression 'load': out of sight"⟩, whole)) ∧
      Evaluator.Joined ⟨1000, 2000, 1000⟩ column
        (.ok (.error ⟨.evaluation, "expression 'load': out of sight"⟩, whole)) := by
  intro expressions chunks
  have contiguous : chunks.IsChain fun c d => c.window.stop = d.window.start := by simp [chunks]
  have forward : ∀ c ∈ chunks, c.window.Forward := by
    simp only [chunks, List.mem_cons, List.not_mem_nil, or_false]
    rintro c (rfl | rfl) <;> exact ⟨by decide, by decide, by decide⟩
  obtain ⟨halone, hjoined⟩ := @plan_is_composed_of_expressions expressions chunks contiguous forward
  have yielded : ∀ p ∈ expressions, (Evaluator.ofPlan [p]).YieldsAt chunks 0 := by
    intro p hp
    rw [halone p hp]
    simp only [expressions, List.mem_cons, List.not_mem_nil, or_false] at hp
    rcases hp with rfl | rfl | rfl <;> exact ⟨_, rfl⟩
  obtain ⟨column, outcome, hcolumn, houtcome, hjoin⟩ := hjoined 1 _ rfl fun j hj p hp => by
    obtain rfl : j = 0 := by omega
    exact yielded p hp
  obtain ⟨whole, hwhole⟩ : ∃ whole, ((Evaluator.ofPlan expressions).feed chunks)[1]? =
      some (.ok (.error ⟨.evaluation, "expression 'load': out of sight"⟩, whole)) := ⟨_, rfl⟩
  obtain rfl := Option.some.inj (houtcome.symm.trans hwhole)
  exact ⟨contiguous, forward, yielded, column, whole, hcolumn, hwhole, hjoin⟩

end SeriesStream
