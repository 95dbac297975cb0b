import Mathlib.Data.List.TakeWhile
import SeriesStream.Proofs.Decoding
import SeriesStream.Proofs.Prompt
import SeriesStream.Proofs.Refinement

namespace SeriesStream

/-- A refused range is told as such only if it ends before it starts. -/
theorem kind_of_partition {step start stop : Int} {multiplier : Nat} {e : RangeError}
    (h : partition step start stop multiplier = .error e) :
    e.kind = if stop < start then .invalidRange else .validation := by
  unfold partition at h
  simp only at h
  by_cases horder : stop < start
  · rw [if_pos horder] at h
    cases h
    rw [if_pos horder]
    rfl
  · rw [if_neg horder] at h
    rw [if_neg horder]
    repeat' split at h
    all_goals cases h
    all_goals rfl

namespace Http

theorem trim_eq_nil_iff {chars : List Char} : Text.trim chars = [] ↔ ∀ c ∈ chars, Text.isBlank c = true := by
  rw [Text.trim, List.reverse_eq_nil_iff, List.dropWhile_eq_nil_iff]
  simp only [List.mem_reverse]
  induction chars with
  | nil => simp
  | cons c chars ih =>
    cases hc : Text.isBlank c with
    | true => simp [hc, ih]
    | false => simp [hc]

theorem isBlankText_eq_false_iff {s : String} :
    isBlankText s = false ↔ ∃ c ∈ s.toList, Text.isBlank c = false := by
  rw [isBlankText, List.isEmpty_eq_false_iff, ne_eq, trim_eq_nil_iff]
  simp

/-- The function that a call names is known, and its query is not blank. -/
def ExpressionCall.Sensible (e : ExpressionCall) : Prop :=
  e.function.map Char.toLower ∈ ["raw", "running_sum", "cumsum", "delta"] ∧
    ∃ c ∈ e.query.toList, Text.isBlank c = false

/-- There are expressions, and nothing is wrong with any of them. -/
def QueryCall.Sensible (q : QueryCall) : Prop := q.expressions ≠ [] ∧ ∀ e ∈ q.expressions, e.Sensible

theorem function_cases (name : String) :
    (∃ f, Function.ofName? name = .ok f) ∧
      name.map Char.toLower ∈ ["raw", "running_sum", "cumsum", "delta"] ∨
    (∃ message, Function.ofName? name = .error ⟨.validation, message⟩) ∧
      name.map Char.toLower ∉ ["raw", "running_sum", "cumsum", "delta"] := by
  unfold Function.ofName?
  split
  next h => exact Or.inl ⟨⟨_, rfl⟩, by simp [h]⟩
  next h => exact Or.inl ⟨⟨_, rfl⟩, by simp [h]⟩
  next h => exact Or.inl ⟨⟨_, rfl⟩, by simp [h]⟩
  next h => exact Or.inl ⟨⟨_, rfl⟩, by simp [h]⟩
  next hraw hsum hcumsum hdelta =>
    refine Or.inr ⟨⟨_, rfl⟩, ?_⟩
    simp only [List.mem_cons, List.not_mem_nil, or_false, not_or]
    exact ⟨hraw, hsum, hcumsum, hdelta⟩

theorem planned_cases (e : ExpressionCall) :
    (e.Sensible ∧ ∃ p, e.toPlanned = .ok p ∧ ∃ f q, p.expression = Function.toExpression f q) ∨
      ¬e.Sensible ∧ ∃ message, e.toPlanned = .error ⟨.validation, message⟩ := by
  rcases function_cases e.function with ⟨⟨f, hf⟩, hknown⟩ | ⟨⟨message, hf⟩, hunknown⟩
  · cases hblank : isBlankText e.query with
    | true =>
      refine Or.inr ⟨fun h => ?_, ?_⟩
      · rw [isBlankText_eq_false_iff.mpr h.2] at hblank
        cases hblank
      · exact ⟨_, by simp only [ExpressionCall.toPlanned, hf, hblank, bind, Except.bind]; rfl⟩
    | false =>
      refine Or.inl ⟨⟨hknown, isBlankText_eq_false_iff.mp hblank⟩, ⟨e.name, f.toExpression e.query⟩, ?_, f, _, rfl⟩
      simp [ExpressionCall.toPlanned, hf, hblank, bind, Except.bind, pure, Except.pure]
  · refine Or.inr ⟨fun h => hunknown h.1, message, ?_⟩
    simp [ExpressionCall.toPlanned, hf, bind, Except.bind]

/-- A plan for built-in expressions, over the range of the call. -/
structure Planned (q : QueryCall) (plan : Plan) : Prop where
  made : q.toPlan = .ok plan
  start_eq : plan.start = q.start
  stop_eq : plan.stop = q.stop
  step_eq : plan.step = q.step
  builtin : ∀ p ∈ plan.expressions, ∃ f query, p.expression = Function.toExpression f query

theorem plan_of_sensible {q : QueryCall} (h : q.Sensible) : ∃ plan, Planned q plan := by
  obtain ⟨expressions, hmade, hbuiltin⟩ : ∃ ps, q.expressions.mapM ExpressionCall.toPlanned = .ok ps ∧
      ∀ p ∈ ps, ∃ f query, p.expression = Function.toExpression f query := by
    refine mapM_of_forall fun e he => ?_
    rcases planned_cases e with ⟨-, hp⟩ | ⟨hnot, -⟩
    · exact hp
    · exact absurd (h.2 e he) hnot
  refine ⟨⟨q.start, q.stop, q.step, expressions⟩, ?_, rfl, rfl, rfl, hbuiltin⟩
  simp [QueryCall.toPlan, h.1, hmade, bind, Except.bind, pure, Except.pure]

theorem no_plan {q : QueryCall} (h : ¬q.Sensible) :
    ∃ message, q.toPlan = .error ⟨.validation, message⟩ := by
  by_cases hempty : q.expressions = []
  · exact ⟨_, by simp only [QueryCall.toPlan, hempty, List.isEmpty_nil, ↓reduceIte]; rfl⟩
  · obtain ⟨e, he, hnot⟩ : ∃ e ∈ q.expressions, ¬e.Sensible := by
      simpa [QueryCall.Sensible, hempty] using h
    have hall : ∀ e ∈ q.expressions, (∃ p, e.toPlanned = .ok p) ∨
        ∃ f, e.toPlanned = .error f ∧ f.kind = .validation := by
      intro e _
      rcases planned_cases e with ⟨-, p, hp, -⟩ | ⟨-, message, hmessage⟩
      · exact Or.inl ⟨p, hp⟩
      · exact Or.inr ⟨_, hmessage, rfl⟩
    have hfailing : ∃ e ∈ q.expressions, ∃ f, e.toPlanned = .error f := by
      rcases planned_cases e with ⟨hsensible, -⟩ | ⟨-, message, hmessage⟩
      · exact absurd hsensible hnot
      · exact ⟨e, he, _, hmessage⟩
    obtain ⟨⟨kind, message⟩, hmapM, rfl⟩ := mapM_of_failing hall hfailing
    exact ⟨message, by simp [QueryCall.toPlan, hempty, hmapM, bind, Except.bind]⟩

/-- The body of a refused query. -/
def refusalText (kind : QueryErrorKind) (message : String) : String :=
  (Json.ofFields [("success", .bool false), ("kind", .ofString kind.label), ("error", .ofString message)]).toText

/-- The body of a stream of these events. -/
def streamText (events : List StreamEvent) : String := String.join (events.map StreamEvent.frame)

/-- All that can be answered to a query: the call is refused, or its range is, or every window of its plan
is told. -/
inductive Answered (s : Server) (q : QueryCall) : Response → Prop
  | senseless {r : Response} {message : String} (wrong : ¬q.Sensible) (status : r.status = 400)
      (body : r.body = refusalText .validation message) : Answered s q r
  | uncut {r : Response} {message : String} {e : RangeError} (sensible : q.Sensible)
      (cut : partition q.step q.start q.stop s.options.multiplier = .error e) (status : r.status = 400)
      (body : r.body = refusalText e.kind message) : Answered s q r
  | streamed {r : Response} {plan : Plan} {windows : List Window} {batches : List WindowBatch}
      {final : List Slot} (sensible : q.Sensible) (planned : q.toPlan = .ok plan)
      (cut : partition q.step q.start q.stop s.options.multiplier = .ok windows)
      (yields : (plan.source s.store.toBackend s.options).Yields 0 plan.slots windows batches final)
      (status : r.status = 200)
      (body : r.body = streamText (.info s.options.message :: dataOf batches ++ [.close])) : Answered s q r

theorem ofQueryError_of_blames {e : QueryError} (h : e.kind.blamesRequest = true) :
    (Server.ofQueryError e).status = 400 ∧ (Server.ofQueryError e).body = refusalText e.kind e.render :=
  ⟨by simp [Server.ofQueryError, Response.json, h], rfl⟩

theorem answerQuery_cases (s : Server) {q : QueryCall} (beating : 0 < s.options.heartbeat)
    (shown : Instant.Shown q.stop) : ∃ r, s.answerQuery q = .ok r ∧ Answered s q r := by
  by_cases hsensible : q.Sensible
  · obtain ⟨plan, planned⟩ := plan_of_sensible hsensible
    cases hcut : partition q.step q.start q.stop s.options.multiplier with
    | error e =>
      have hexecute : execute plan s.store.toBackend s.options (fun _ => .heartbeat) = .ok (.error e) := by
        simp only [execute, planned.step_eq, planned.start_eq, planned.stop_eq, hcut]
      refine ⟨_, by simp only [Server.answerQuery, planned.made, hexecute, bind, Except.bind]; rfl, ?_⟩
      have hblames : e.toQueryError.kind.blamesRequest = true := by
        rw [show e.toQueryError.kind = e.kind from rfl, kind_of_partition hcut]
        split <;> rfl
      exact .uncut hsensible hcut (ofQueryError_of_blames hblames).1 (ofQueryError_of_blames hblames).2
    | ok windows =>
      have cut := hcut
      rw [← planned.step_eq, ← planned.start_eq, ← planned.stop_eq] at cut
      obtain ⟨x, hx, started⟩ := Execution.started_of_cut s.store.toBackend (fun _ => .heartbeat) cut beating
      obtain ⟨batches, final, yields, -⟩ := yields_of_builtin started planned.builtin (planned.stop_eq ▸ shown)
      obtain ⟨_, _, _, _, chain, _⟩ := partition_chain cut
      have hcourse := courseOver_of_yields chain yields
      obtain ⟨told, y, hdrain, htold⟩ := Execution.drained_of_execute hx started (fun _ _ => rfl)
        (hcourse ▸ batches_whole batches)
      rw [hcourse, eventsOf_batches] at htold
      refine ⟨_, by simp only [Server.answerQuery, planned.made, hx, hdrain, bind, Except.bind]; rfl, ?_⟩
      refine .streamed hsensible planned.made hcut yields rfl ?_
      show String.join (told.map fun e => e.2.frame) = _
      rw [streamText, List.cons_append, ← htold, List.map_map]
      rfl
  · obtain ⟨message, hmade⟩ := no_plan hsensible
    have hanswer := ofQueryError_of_blames (e := ⟨.validation, message⟩) rfl
    exact ⟨_, by simp only [Server.answerQuery, hmade], .senseless hsensible hanswer.1 hanswer.2⟩

theorem Server.ofSettings_eq {settings : Settings} (origins : "*" ∉ settings.server.corsOrigins) :
    ∃ cors, Server.ofSettings settings = .ok ⟨Store.empty, settings.streaming.options, cors⟩ := by
  have hpolicy : ∃ cors, CorsPolicy.ofOrigins settings.server.corsOrigins = .ok cors := by
    unfold CorsPolicy.ofOrigins
    split
    next => exact ⟨.any, rfl⟩
    next =>
      have hplain : (settings.server.corsOrigins.filter CorsPolicy.isHeaderValue).contains "*" = false := by
        simpa using fun hmem => absurd hmem origins
      exact ⟨_, by simp only [hplain, Bool.false_eq_true, ↓reduceIte]; rfl⟩
  obtain ⟨cors, hcors⟩ := hpolicy
  exact ⟨cors, by simp [ofSettings, hcors, bind, Except.bind, pure, Except.pure]⟩

theorem beating_of_valid {settings : Settings} (valid : settings.fault? = none) :
    0 < settings.streaming.options.heartbeat := by
  have hbeat : settings.streaming.heartbeat ≠ 0 := by
    intro hzero
    simp only [Settings.fault?, hzero, ↓reduceIte] at valid
    split at valid <;> cases valid
  refine Nat.pos_of_ne_zero fun hzero => hbeat ?_
  exact UInt64.toNat_inj.mp hzero

open Json (Decoder) in
theorem handle_query (s : Server) (now : Int) {r : Request} {q : QueryCall} (beating : 0 < s.options.heartbeat)
    (post : r.method = .post) (path : Endpoint.ofPath? r.path = some .query) (json : r.isJson = true)
    (decoded : Decoder.front QueryCall.ofJson r.body = .ok q) :
    ∃ answer, s.handle now r = .ok (answer, s) ∧ Answered s q answer := by
  obtain ⟨answer, hanswer, hcases⟩ := answerQuery_cases s beating (QueryCall.shown decoded).2.1
  have hcall : Endpoint.query.call r = .query q := by simp [Endpoint.call, json, decoded]
  refine ⟨answer.withHeaders (s.cors.originHeaders r), ?_, ?_⟩
  · simp [Server.handle, path, post, Endpoint.methods, hcall, Server.answerCall, hanswer, bind, Except.bind,
      pure, Except.pure]
  · -- headers are no part of what is said about an answer
    cases hcases with
    | senseless wrong status body => exact .senseless wrong status body
    | uncut sensible cut status body => exact .uncut sensible cut status body
    | streamed sensible planned cut yields status body =>
      exact .streamed sensible planned cut yields status body

/-- A query for the running sum over three steps. -/
def Request.sums : Request :=
  ⟨.post, "/api/v1/query/stream", [("content-type", "application/json")],
    Glyph.ofString ("\x7b\"start\":0,\"end\":3000,\"step\":1000,\"expressions\":[" ++
      "\x7b\"name\":\"total\",\"function\":\"CumSum\",\"query\":\"cpu\"\x7d]\x7d")⟩

end Http

end SeriesStream
