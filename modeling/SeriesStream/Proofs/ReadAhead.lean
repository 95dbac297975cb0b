import SeriesStream.Proofs.Consumer
import SeriesStream.Proofs.Ledger
import SeriesStream.Proofs.Lookup
import SeriesStream.Proofs.Partition

namespace SeriesStream

namespace Evaluator

theorem evaluated_awaitChunk (e : Evaluator) : e.awaitChunk.evaluated = e.evaluated := by
  unfold awaitChunk
  split <;> rfl

theorem evaluated_finish (e : Evaluator) : e.finish.evaluated = e.evaluated := by
  unfold finish
  split <;> rfl

/-- A window counts as evaluated when it yields a batch. -/
theorem evaluated_of_evaluate {e after : Evaluator} {c : Chunk} {result : Except QueryError WindowBatch}
    (h : e.evaluate c = .ok (result, after)) :
    after.evaluated = e.evaluated + (if result.isOk then 1 else 0) := by
  have hcases := e.evaluate_cases c
  rw [h] at hcases
  cases hcases <;> rfl

end Evaluator

namespace Pipeline

theorem evaluated_of_through {p q : Pipeline} (h : p.poll = .ok (.ready none, q)) :
    q.evaluator.evaluated = p.evaluator.evaluated := by
  rw [evaluator_of_through h, Evaluator.evaluated_finish]

/-- A pipeline that has evaluated the chunks its fetcher handed out, and whose requests are entered in a
ledger. The ledger is that of its fetcher, unless the fetcher is through. -/
structure Ahead (s : Source) (windows : List Window) (p : Pipeline) : Prop where
  sound : p.Sound
  ledger : ∃ chunks f, Fetcher.Ledger s windows chunks f ∧ chunks.length = p.evaluator.evaluated ∧
    p.fetcher.requests = f.requests ∧ (f = p.fetcher ∨ p.fetcher.Spent)

section

variable {s : Source} {windows : List Window} {p q : Pipeline}

theorem Ahead.kept (sound : p.Sound) {chunks : List Chunk} (ledger : Fetcher.Ledger s windows chunks p.fetcher)
    (counted : chunks.length = p.evaluator.evaluated) : p.Ahead s windows :=
  ⟨sound, chunks, p.fetcher, ledger, counted, rfl, Or.inl rfl⟩

theorem Ahead.waits (h : p.Ahead s windows) (hw : p.Waits q) : q.Ahead s windows := by
  induction hw with
  | refl => exact h
  | @fetcher q g hwaits hf ih =>
    have hsound := (Waits.fetcher .refl hf).sound ih.sound
    obtain ⟨chunks, f, ledger, counted, sent, rfl | spent⟩ := ih.ledger
    · exact .kept hsound (ledger.waits hf) counted
    · obtain ⟨hspent, hsame⟩ := spent.waits hf
      exact ⟨hsound, chunks, f, ledger, counted, hsame.trans sent, Or.inr hspent⟩
  | @await q _ ih =>
    obtain ⟨chunks, f, ledger, counted, sent, which⟩ := ih.ledger
    exact ⟨(Waits.await .refl).sound ih.sound, chunks, f, ledger,
      counted.trans q.evaluator.evaluated_awaitChunk.symm, sent, which⟩

/-- What is called off keeps the requests it has sent. -/
theorem Ahead.cancel (h : p.Ahead s windows) {after : Evaluator}
    (counted : after.evaluated = p.evaluator.evaluated) : Ahead s windows ⟨p.fetcher.cancel, after⟩ := by
  obtain ⟨chunks, f, ledger, hcount, sent, -⟩ := h.ledger
  exact ⟨⟨fun _ => ⟨rfl, rfl⟩, fun _ => rfl⟩, chunks, f, ledger, hcount.trans counted.symm, sent,
    Or.inr p.fetcher.spent_cancel⟩

theorem Ahead.poll {next : NextBatch} (h : p.Ahead s windows) (hp : p.poll = .ok (.ready next, q)) :
    q.Ahead s windows := by
  have hands := hands_of_poll h.sound hp
  have hcases := poll_cases h.sound
  have hthrough := fun hnone : next = none => evaluated_of_through (hnone ▸ hp)
  rw [hp] at hcases
  cases hcases with
  | through waits line finished =>
    obtain ⟨chunks, f, ledger, counted, sent, rfl | spent⟩ := h.ledger
    · exact .kept hands.sound (ledger.waits waits) (counted.trans (hthrough rfl).symm)
    · obtain ⟨hspent, hsame⟩ := spent.waits waits
      exact ⟨hands.sound, chunks, f, ledger, counted.trans (hthrough rfl).symm, hsame.trans sent, Or.inr hspent⟩
  | failure settled delivered => exact h.cancel rfl
  | rejected settled delivered evaluated => exact h.cancel (Evaluator.evaluated_of_evaluate evaluated)
  | batch settled delivered evaluated =>
    have hcount := Evaluator.evaluated_of_evaluate evaluated
    obtain ⟨chunks, f, ledger, counted, sent, rfl | spent⟩ := h.ledger
    · refine .kept hands.sound (ledger.chunk settled delivered) ?_
      rw [hcount, ← counted, List.length_append]
      rfl
    · simp [spent.inFlight] at settled

theorem Ahead.requests_prefix (h : p.Ahead s windows) :
    p.fetcher.requests <+: windows.map (⟨s.queries, ·⟩) := by
  obtain ⟨chunks, f, ledger, -, sent, -⟩ := h.ledger
  exact sent ▸ ledger.requests_prefix

theorem Ahead.windows_prefix (h : p.Ahead s windows) : p.fetcher.requests.map (·.window) <+: windows := by
  have hfront := h.requests_prefix.map (·.window)
  rw [List.map_map] at hfront
  exact (List.map_id windows) ▸ hfront

theorem Ahead.requests_le (h : p.Ahead s windows) :
    p.fetcher.requests.length ≤ p.evaluator.evaluated + 1 := by
  obtain ⟨chunks, f, ledger, counted, sent, -⟩ := h.ledger
  rw [sent, ← counted]
  exact ledger.requests_le

/-- A pipeline whose fetcher is through hands out nothing but the end. -/
theorem poll_of_spent (sound : p.Sound) (spent : p.fetcher.Spent) {result : Poll NextBatch}
    (h : p.poll = .ok (result, q)) : q.fetcher.Spent ∧ q.fetcher.requests = p.fetcher.requests := by
  have hcases := poll_cases sound
  rw [h] at hcases
  cases hcases with
  | pending running busy =>
    rw [Fetcher.Waits.refl.demand.finished spent.finished] at running
    cases running
  | through waits line finished => exact spent.waits waits
  | failure settled delivered => simp [spent.inFlight] at settled
  | rejected settled delivered evaluated => simp [spent.inFlight] at settled
  | batch settled delivered evaluated => simp [spent.inFlight] at settled

theorem Waits.of_spent (h : p.Waits q) (spent : p.fetcher.Spent) :
    q.fetcher.Spent ∧ q.fetcher.requests = p.fetcher.requests := by
  induction h with
  | refl => exact ⟨spent, rfl⟩
  | fetcher _ hf ih =>
    obtain ⟨hspent, hsame⟩ := ih.1.waits hf
    exact ⟨hspent, hsame.trans ih.2⟩
  | await _ ih => exact ih

end

end Pipeline

namespace Execution

/-- The states that an execution passes through while its consumer pulls, sleeps and goes away, also
between the turns of one pull and while a turn waits, which is where a pull can be given up. -/
inductive Visits (x : Execution) : Execution → Prop
  | here : Visits x x
  | pull {y z : Execution} {e : Option StreamEvent} (h : Visits x y) (pulled : y.pull = .ok (e, z)) : Visits x z
  | turn {y z : Execution} {t : Turn} (h : Visits x y) (there : y.outcome = none)
      (turned : y.turn = .ok (t, z)) : Visits x z
  | wait {y : Execution} {p : Pipeline} (h : Visits x y) (there : y.outcome = none)
      (streaming : y.phase = .streaming) (waits : y.pipeline.Waits p) : Visits x { y with pipeline := p }
  | sleep {y : Execution} (h : Visits x y) (duration : Nat) : Visits x (y.sleep duration)
  | drop {y : Execution} (h : Visits x y) : Visits x y.drop

/-- An execution whose requests are entered in a ledger, and whose fetcher is through once the execution no
longer streams or was dropped. -/
structure Ahead (s : Source) (windows : List Window) (x : Execution) : Prop where
  pipeline : x.pipeline.Ahead s windows
  closed : x.phase ≠ .streaming ∨ x.outcome.isSome = true → x.pipeline.fetcher.Spent

section

variable {s : Source} {windows : List Window} {x y : Execution}

theorem Ahead.sound (h : x.Ahead s windows) (there : x.outcome = none) : x.Sound :=
  ⟨h.pipeline.sound, fun hphase => (h.closed (Or.inl hphase)).finished, by simp [there]⟩

theorem Ahead.drop (h : x.Ahead s windows) : x.drop.Ahead s windows :=
  ⟨h.pipeline.cancel rfl, fun _ => x.pipeline.fetcher.spent_cancel⟩

theorem Ahead.wait {p : Pipeline} (h : x.Ahead s windows) (waits : x.pipeline.Waits p) :
    Ahead s windows { x with pipeline := p } :=
  ⟨h.pipeline.waits waits, fun hclosed => (waits.of_spent (h.closed hclosed)).1⟩

theorem Ahead.sleep (h : x.Ahead s windows) (duration : Nat) : (x.sleep duration).Ahead s windows :=
  h.wait (.fetcher .refl (Fetcher.Waits.refl.waitUntil _))

theorem outcome_of_turn {t : Turn} (sound : x.Sound) (h : x.turn = .ok (t, y)) : y.outcome = x.outcome := by
  have hcases := turn_cases sound.pipeline
  rw [h] at hcases
  cases hcases with
  | ended => rfl
  | closed => rfl
  | beat _ _ _ _ result =>
    obtain ⟨-, rfl⟩ := Prod.mk.inj result
    rfl
  | handed _ _ _ reacted => cases reacted <;> rfl

theorem Ahead.turn {t : Turn} (h : x.Ahead s windows) (there : x.outcome = none) (ht : x.turn = .ok (t, y)) :
    y.Ahead s windows := by
  have hcases := turn_cases h.pipeline.sound
  rw [ht] at hcases
  cases hcases with
  | ended => exact h
  | closed phase => exact ⟨h.pipeline, fun _ => h.closed (Or.inl (by simp [phase]))⟩
  | beat phase waits _ _ result =>
    obtain ⟨-, rfl⟩ := Prod.mk.inj result
    exact ⟨h.pipeline.waits waits, fun hclosed => (waits.of_spent (h.closed hclosed)).1⟩
  | @handed p q next n _ phase waits polled reacted =>
    have hp := h.pipeline.waits waits
    have hq := hp.poll polled
    have hands := Pipeline.hands_of_poll hp.sound polled
    cases reacted with
    | through => exact ⟨hq, fun _ => hands.sound.fetcher.spent (hands.finished (by simp))⟩
    | failure e => exact ⟨hq, fun _ => hands.sound.fetcher.spent (hands.finished (by simp))⟩
    | blank blank => exact ⟨hq, by simp [phase, there]⟩
    | shown shown => exact ⟨hq, by simp [phase, there]⟩

theorem Ahead.silently (h : x.Ahead s windows) (there : x.outcome = none) (hs : Silently x y) :
    y.Ahead s windows ∧ y.outcome = none := by
  induction hs with
  | refl => exact ⟨h, there⟩
  | turn first _ ih => exact ih (h.turn there first) ((outcome_of_turn (h.sound there) first).trans there)

theorem Ahead.pull {e : Option StreamEvent} (h : x.Ahead s windows) (hp : x.pull = .ok (e, y)) :
    y.Ahead s windows := by
  by_cases gone : x.outcome.isSome = true
  · obtain ⟨-, rfl⟩ : none = e ∧ x = y := by simpa [Execution.pull, gone] using hp
    exact h
  · have there : x.outcome = none := by simpa using gone
    have hcases := pull_cases (h.sound there)
    rw [hp] at hcases
    cases hcases with
    | past => exact h
    | event quiet turn =>
      obtain ⟨hquiet, hthere⟩ := h.silently there quiet
      have hturn := hquiet.turn hthere turn
      exact ⟨hturn.pipeline, hturn.closed⟩
    | ended quiet turn => exact (h.silently there quiet).1.drop

theorem Ahead.visits (h : x.Ahead s windows) (hv : x.Visits y) : y.Ahead s windows := by
  induction hv with
  | here => exact h
  | pull _ pulled ih => exact ih.pull pulled
  | turn _ there turned ih => exact ih.turn there turned
  | wait _ _ _ waits ih => exact ih.wait waits
  | sleep _ duration ih => exact ih.sleep duration
  | drop _ ih => exact ih.drop

/-- Nothing is asked for any more. -/
def Rests (x y : Execution) : Prop := y.pipeline.fetcher.Spent ∧ y.requests = x.requests

theorem Rests.trans {z : Execution} (h : x.Rests y) (h' : y.Rests z) : x.Rests z := ⟨h'.1, h'.2.trans h.2⟩

theorem rests_of_turn {t : Turn} (h : x.Ahead s windows) (spent : x.pipeline.fetcher.Spent)
    (ht : x.turn = .ok (t, y)) : x.Rests y := by
  have hcases := turn_cases h.pipeline.sound
  rw [ht] at hcases
  cases hcases with
  | ended => exact ⟨spent, rfl⟩
  | closed => exact ⟨spent, rfl⟩
  | beat _ waits _ _ result =>
    obtain ⟨-, rfl⟩ := Prod.mk.inj result
    exact waits.of_spent spent
  | handed _ waits polled reacted =>
    obtain ⟨hspent, hsame⟩ := waits.of_spent spent
    obtain ⟨hend, hrest⟩ := Pipeline.poll_of_spent (waits.sound h.pipeline.sound) hspent polled
    have hboth := hrest.trans hsame
    cases reacted <;> exact ⟨hend, hboth⟩

theorem rests_of_silently (h : x.Ahead s windows) (there : x.outcome = none)
    (spent : x.pipeline.fetcher.Spent) (hs : Silently x y) : x.Rests y := by
  induction hs with
  | refl => exact ⟨spent, rfl⟩
  | turn first _ ih =>
    have hfirst := rests_of_turn h spent first
    have hthere := (outcome_of_turn (h.sound there) first).trans there
    exact hfirst.trans (ih (h.turn there first) hthere hfirst.1)

theorem rests_of_drop (x : Execution) : x.Rests x.drop := ⟨x.pipeline.fetcher.spent_cancel, rfl⟩

theorem rests_of_pull {e : Option StreamEvent} (h : x.Ahead s windows) (spent : x.pipeline.fetcher.Spent)
    (hp : x.pull = .ok (e, y)) : x.Rests y := by
  by_cases gone : x.outcome.isSome = true
  · obtain ⟨-, rfl⟩ : none = e ∧ x = y := by simpa [Execution.pull, gone] using hp
    exact ⟨spent, rfl⟩
  · have there : x.outcome = none := by simpa using gone
    have hcases := pull_cases (h.sound there)
    rw [hp] at hcases
    cases hcases with
    | past => exact ⟨spent, rfl⟩
    | event quiet turn =>
      have hquiet := rests_of_silently h there spent quiet
      have hturn := rests_of_turn (h.silently there quiet).1 hquiet.1 turn
      exact hquiet.trans ⟨hturn.1, hturn.2⟩
    | ended quiet turn => exact (rests_of_silently h there spent quiet).trans (rests_of_drop _)

/-- Once the fetcher is through no request is sent, whatever the consumer does and however long it waits. -/
theorem rests_of_visits (h : x.Ahead s windows) (spent : x.pipeline.fetcher.Spent) (hv : x.Visits y) :
    x.Rests y := by
  induction hv with
  | here => exact ⟨spent, rfl⟩
  | pull hv pulled ih => exact ih.trans (rests_of_pull (h.visits hv) ih.1 pulled)
  | turn hv _ turned ih => exact ih.trans (rests_of_turn (h.visits hv) ih.1 turned)
  | wait _ _ _ waits ih => exact ih.trans (waits.of_spent ih.1)
  | sleep _ duration ih => exact ih.trans (ih.1.waits (Fetcher.Waits.refl.waitUntil _))
  | drop _ ih => exact ih.trans (rests_of_drop _)

/-- Who was told an error, `close` or the end has an execution whose fetcher is through. -/
theorem spent_of_pull {e : Option StreamEvent} (h : x.Ahead s windows) (hp : x.pull = .ok (e, y))
    (last : e = none ∨ e = some .close ∨ ∃ message, e = some (.error message)) :
    y.pipeline.fetcher.Spent := by
  have hy := h.pull hp
  by_cases gone : x.outcome.isSome = true
  · obtain ⟨-, rfl⟩ : none = e ∧ x = y := by simpa [Execution.pull, gone] using hp
    exact h.closed (Or.inr gone)
  · have hphase := phase_of_pull (h.sound (by simpa using gone)) hp
    rcases last with rfl | rfl | ⟨message, rfl⟩ <;> exact hy.closed (Or.inl (by simp [hphase.2]))

end

/-- A fetcher that was never asked for anything stays so while time goes by. -/
theorem unasked_sleep {x : Execution} (free : x.pipeline.fetcher.inFlight = none) (duration : Nat) :
    (x.sleep duration).pipeline.fetcher.inFlight = none ∧ (x.sleep duration).requests = x.requests := by
  have hstart : x.pipeline.fetcher.start = x.pipeline.fetcher := Fetcher.start_eq_self (by simp [free])
  have hdue : x.pipeline.fetcher.due? = none := by simp [Fetcher.due?, free]
  unfold Execution.sleep Pipeline.sleep Fetcher.sleep Fetcher.waitUntil Execution.requests
  simp only [hstart, hdue]
  split
  · exact ⟨free, rfl⟩
  · exact ⟨free, rfl⟩

theorem unasked_sleeps {x : Execution} (free : x.pipeline.fetcher.inFlight = none) (durations : List Nat) :
    (durations.foldl sleep x).requests = x.requests := by
  induction durations generalizing x with
  | nil => rfl
  | cons duration durations ih =>
    obtain ⟨hfree, hrequests⟩ := unasked_sleep free duration
    exact (ih hfree).trans hrequests

end Execution

theorem baseQueries_ascending (p : Plan) : p.baseQueries.Pairwise (· < ·) :=
  (OrderedMap.keys_ascending _).imp compareOfLessAndEq_eq_lt.mp

theorem mem_baseQueries {p : Plan} {q : BaseQuery} :
    q ∈ p.baseQueries ↔ ∃ e ∈ p.expressions, q ∈ e.expression.baseQueries := by
  rw [Plan.baseQueries, OrderedMap.mem_keys_ofList_iff, List.mem_flatMap]

/-- An execution begins with nothing asked for and all windows of its plan before it. -/
theorem ahead_of_execute {plan : Plan} {backend : Backend} {options : StreamOptions} {lead : Nat → Lead}
    {x : Execution} {windows : List Window} (hx : execute plan backend options lead = .ok (.ok x))
    (cut : partition plan.step plan.start plan.stop options.multiplier = .ok windows) :
    x.Ahead (plan.source backend options) windows ∧ x.pipeline.fetcher.inFlight = none ∧ x.requests = [] := by
  obtain ⟨_, hcut, beating, rfl⟩ := begun_of_execute hx
  obtain rfl := Except.ok.inj (cut.symm.trans hcut)
  have ledger := Fetcher.ledger_create backend plan.baseQueries windows options.timeout
  have hsound := (started_begun backend lead cut beating).sound.pipeline
  exact ⟨⟨.kept hsound ledger rfl, by simp [Plan.begun]⟩, rfl, rfl⟩

/-- At every point of an execution the requests sent so far are for the first windows of the plan, each
once and in order, and at most one more than were evaluated. They all ask for the queries that the
expressions read, in ascending order. None is sent before the first pull, and none after an error, `close`
or the end was told or the execution was dropped. -/
theorem requests_keep_one_ahead {plan : Plan} {backend : Backend} {options : StreamOptions}
    {lead : Nat → Lead} {x : Execution} {windows : List Window}
    (hx : execute plan backend options lead = .ok (.ok x))
    (cut : partition plan.step plan.start plan.stop options.multiplier = .ok windows) :
    (∀ y, x.Visits y →
      y.requests <+: windows.map (fun w => ⟨plan.baseQueries, w⟩) ∧
      (y.requests.map (·.window)).Nodup ∧
      y.requests.length ≤ y.pipeline.evaluator.evaluated + 1) ∧
    plan.baseQueries.Pairwise (· < ·) ∧
    (∀ q, q ∈ plan.baseQueries ↔ ∃ p ∈ plan.expressions, q ∈ p.expression.baseQueries) ∧
    (∀ durations : List Nat, (durations.foldl Execution.sleep x).requests = []) ∧
    (∀ y, x.Visits y → ∀ z, y.drop.Visits z → z.requests = y.requests) ∧
    ∀ y e z, x.Visits y → y.pull = .ok (e, z) →
      e = none ∨ e = some .close ∨ (∃ message, e = some (.error message)) →
      ∀ v, z.Visits v → v.requests = z.requests := by
  obtain ⟨ahead, free, hnone⟩ := ahead_of_execute hx cut
  obtain ⟨_, _, _, _, chain, _⟩ := partition_chain cut
  refine ⟨fun y hy => ?_, baseQueries_ascending plan, fun q => mem_baseQueries, fun durations => ?_,
    fun y hy z hz => ?_, fun y e z hy pulled last v hv => ?_⟩
  · have hahead := (ahead.visits hy).pipeline
    have hnodup : windows.Nodup := chain.starts_rise.imp fun hlt heq => by simp [heq] at hlt
    exact ⟨hahead.requests_prefix, hnodup.sublist hahead.windows_prefix.sublist, hahead.requests_le⟩
  · exact (Execution.unasked_sleeps free durations).trans hnone
  · have hdrop := (ahead.visits hy).drop
    exact (Execution.rests_of_visits hdrop y.pipeline.fetcher.spent_cancel hz).2
  · have hz := (ahead.visits hy).pull pulled
    exact (Execution.rests_of_visits hz (Execution.spent_of_pull (ahead.visits hy) pulled last) hv).2

theorem sample_requests_keep_one_ahead :
    partition 1000 0 3000 1 = .ok [⟨0, 1000, 1000⟩, ⟨1000, 2000, 1000⟩, ⟨2000, 3000, 1000⟩] ∧
    ∃ x, execute .sample .flaky .fine (fun _ => .heartbeat) = .ok (.ok x) ∧
      ∀ y, x.Visits y →
        y.requests <+: [⟨["cpu"], ⟨0, 1000, 1000⟩⟩, ⟨["cpu"], ⟨1000, 2000, 1000⟩⟩, ⟨["cpu"], ⟨2000, 3000, 1000⟩⟩] ∧
        y.requests.length ≤ y.pipeline.evaluator.evaluated + 1 ∧
        ∀ z, y.drop.Visits z → z.requests = y.requests := by
  obtain ⟨x, hx⟩ : ∃ x, execute .sample .flaky .fine (fun _ => .heartbeat) = .ok (.ok x) := ⟨_, rfl⟩
  obtain ⟨hpoints, -, -, -, hdrop, -⟩ := requests_keep_one_ahead hx rfl
  refine ⟨rfl, x, hx, fun y hy => ?_⟩
  obtain ⟨hfront, -, hle⟩ := hpoints y hy
  exact ⟨hfront, hle, hdrop y hy⟩

end SeriesStream
