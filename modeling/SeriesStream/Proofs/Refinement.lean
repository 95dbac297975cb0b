import SeriesStream.Proofs.AtOnce
import SeriesStream.Proofs.Containment

namespace SeriesStream

/-- The range that the windows of a plan cover together, as one window. -/
def Plan.span (p : Plan) : Window :=
  ⟨adjustedStart p.step p.start p.stop, Instant.floor p.stop p.step, p.step⟩

/-- The event tells the value `v` at `t` under this name and these tags. -/
def StreamEvent.Tells (e : StreamEvent) (name : String) (tags : TagSet) (t : Int) (v : Float) : Prop :=
  ∃ results, e = .data results ∧ Shows results name tags t v

theorem tells_dataOf {batches : List WindowBatch} {name : String} {tags : TagSet} {t : Int} {v : Float} :
    (∃ e ∈ dataOf batches ++ [.close], e.Tells name tags t v) ↔
      ∃ batch ∈ batches, Shows batch.results name tags t v := by
  constructor
  · rintro ⟨e, he, results, rfl, hshows⟩
    rcases List.mem_append.mp he with he | he
    · obtain ⟨batch, hbatch, heq⟩ := List.mem_map.mp he
      obtain rfl := StreamEvent.data.inj heq
      exact ⟨batch, (List.mem_filter.mp hbatch).1, hshows⟩
    · simp at he
  · rintro ⟨batch, hbatch, r, hr, hshows⟩
    have hfilled : (!batch.results.isEmpty) = true := by
      cases hresults : batch.results with
      | nil => simp [hresults] at hr
      | cons => rfl
    refine ⟨.data batch.results, List.mem_append_left _ ?_, _, rfl, r, hr, hshows⟩
    exact List.mem_map_of_mem (List.mem_filter.mpr ⟨hbatch, hfilled⟩)

theorem tells_results {w : Watch} {name : String} {tags : TagSet} {t : Int} {v : Float} :
    (∃ e ∈ w.events, e.Tells name tags t v) ↔ ∃ e ∈ w.results, e.Tells name tags t v := by
  constructor
  · rintro ⟨e, he, results, rfl, hshows⟩
    exact ⟨_, List.mem_filter.mpr ⟨he, rfl⟩, results, rfl, hshows⟩
  · rintro ⟨e, he, htells⟩
    exact ⟨e, (List.mem_filter.mp he).1, htells⟩

/-- What is told by one of two batches at most is told by one of two events at most. -/
theorem pairwise_tells {w : Watch} {batches : List WindowBatch} (h : w.results = dataOf batches ++ [.close])
    {name : String} {tags : TagSet} {t : Int} {v : Float}
    (apart : batches.Pairwise fun b c => ¬(Shows b.results name tags t v ∧ Shows c.results name tags t v)) :
    w.events.Pairwise fun d e => ¬(d.Tells name tags t v ∧ e.Tells name tags t v) := by
  have hdata : (dataOf batches ++ [StreamEvent.close]).Pairwise
      fun d e => ¬(d.Tells name tags t v ∧ e.Tells name tags t v) := by
    refine List.pairwise_append.mpr ⟨List.pairwise_map.mpr ?_, List.pairwise_singleton _ _, ?_⟩
    · refine (apart.filter _).imp fun hnot hboth => ?_
      obtain ⟨⟨_, heq, hleft⟩, _, heq', hright⟩ := hboth
      obtain rfl := StreamEvent.data.inj heq
      obtain rfl := StreamEvent.data.inj heq'
      exact hnot ⟨hleft, hright⟩
    · rintro d _ e he ⟨_, _, heq, _⟩
      rw [List.mem_singleton.mp he] at heq
      cases heq
  rw [← h, Watch.results, List.pairwise_filter] at hdata
  refine hdata.imp fun hnot hboth => ?_
  obtain ⟨⟨_, rfl, hleft⟩, _, rfl, hright⟩ := hboth
  exact hnot rfl rfl ⟨⟨_, rfl, hleft⟩, _, rfl, hright⟩

/-- Of the elements that have a property in pairs at most, one has it and no other. -/
theorem one_of_pairwise {α : Type} {P : α → Prop} {l : List α} (h : l.Pairwise fun a b => ¬(P a ∧ P b))
    {a : α} (ha : a ∈ l) (hp : P a) :
    ∃ before after, l = before ++ a :: after ∧ ∀ b ∈ before ++ after, ¬P b := by
  obtain ⟨before, after, rfl⟩ := List.append_of_mem ha
  obtain ⟨_, hafter, hbefore⟩ := List.pairwise_append.mp h
  refine ⟨before, after, rfl, fun b hb hpb => ?_⟩
  rcases List.mem_append.mp hb with hb | hb
  · exact hbefore b hb a (by simp) ⟨hpb, hp⟩
  · exact (List.pairwise_cons.mp hafter).1 b hb ⟨hp, hpb⟩

section

variable {plan : Plan} {windows : List Window} {store : Store} {options : StreamOptions} {x : Execution}

/-- From a store all windows of built-in expressions yield, and each batch shows what the expressions have
on its window at once. -/
theorem yields_of_builtin (started : Started plan windows store.toBackend options x)
    (builtin : ∀ p ∈ plan.expressions, ∃ f q, p.expression = Function.toExpression f q)
    (shown : Instant.Shown plan.stop) :
    ∃ batches final, (plan.source store.toBackend options).Yields 0 plan.slots windows batches final ∧
      ∀ batch ∈ batches, ∀ name tags t v, plan.step ∣ t → v.isNaN = false →
        (Shows batch.results name tags t v ↔ YieldAtOnce plan.expressions store plan.span name tags t v ∧
          batch.window.start ≤ t ∧ t < batch.window.stop) := by
  obtain ⟨hstep, _, _, hearliest, chain, hsteps⟩ := partition_chain started.cut
  have hstop : Instant.floor plan.stop plan.step ≤ plan.stop := floor_le hstep
  have hlatest : plan.stop ≤ Instant.latest := shown.2
  have htracks : ∀ slot ∈ plan.slots, slot.Tracks store (adjustedStart plan.step plan.start plan.stop)
      (adjustedStart plan.step plan.start plan.stop) plan.baseQueries := by
    intro slot hslot
    obtain ⟨p, hp, rfl⟩ := List.mem_map.mp hslot
    obtain ⟨f, q, hexpression⟩ := builtin p hp
    refine tracks_empty hexpression (OrderedMap.mem_keys_ofList ?_) store _
    exact List.mem_flatMap.mpr ⟨p, hp, by simp [hexpression, Function.toExpression]⟩
  have hplanned : plan.slots.map (·.planned) = plan.expressions := by
    rw [Plan.slots, List.map_map]
    exact List.map_id _
  have hyields := yields_of_tracks chain (s := plan.source store.toBackend options) rfl hearliest (by omega)
    (Int.le_refl _) hsteps 0 htracks
  rwa [hplanned] at hyields

theorem evaluates_at_once (store : Store)
    (builtin : ∀ p ∈ plan.expressions, ∃ f q, p.expression = Function.toExpression f q)
    (h : plan.span.start ≤ plan.span.stop) :
    ∀ p ∈ plan.expressions, ∃ ev, p.expression.evaluate plan.span store.contents .empty = .ok (.ok ev) := by
  intro p hp
  obtain ⟨f, q, hexpression⟩ := builtin p hp
  obtain ⟨state, hevaluate⟩ := evaluate_contents f q store h
  exact ⟨_, hexpression ▸ hevaluate⟩

theorem results_of_builtin (started : Started plan windows store.toBackend options x)
    {batches : List WindowBatch} {final : List Slot}
    (hyield : (plan.source store.toBackend options).Yields 0 plan.slots windows batches final)
    {steps : List ConsumerStep} (drained : (x.follow steps).Drained) :
    (x.follow steps).results = dataOf batches ++ [.close] := by
  obtain ⟨_, _, _, _, chain, _⟩ := partition_chain started.cut
  obtain ⟨_, _, hresults, _⟩ := drained_cases started drained
  rw [hresults, courseOver_of_yields chain hyield, eventsOf_batches]

/-- A drained stream tells the values on the grid that the expressions have at once, each of them once. -/
theorem tells_iff_at_once (started : Started plan windows store.toBackend options x)
    (builtin : ∀ p ∈ plan.expressions, ∃ f q, p.expression = Function.toExpression f q)
    (shown : Instant.Shown plan.stop) {steps : List ConsumerStep}
    (drained : (x.follow steps).Drained) {name : String} {tags : TagSet} {t : Int} {v : Float}
    (hgrid : plan.step ∣ t) (hnumber : v.isNaN = false) :
    ((∃ e ∈ (x.follow steps).events, e.Tells name tags t v) ↔
      YieldAtOnce plan.expressions store plan.span name tags t v) ∧
    (x.follow steps).events.Pairwise fun d e => ¬(d.Tells name tags t v ∧ e.Tells name tags t v) := by
  obtain ⟨batches, final, hyield, hbatches⟩ := yields_of_builtin started builtin shown
  have hresults := results_of_builtin started hyield drained
  obtain ⟨_, _, _, _, chain, _⟩ := partition_chain started.cut
  constructor
  · rw [tells_results, hresults, tells_dataOf]
    constructor
    · rintro ⟨batch, hbatch, hshows⟩
      exact ((hbatches batch hbatch name tags t v hgrid hnumber).mp hshows).1
    · intro hyields
      have hin : plan.span.start ≤ t ∧ t < plan.span.stop := by
        obtain ⟨p, hp, -, hyields⟩ := hyields
        obtain ⟨f, q, hexpression⟩ := builtin p hp
        obtain ⟨samples, _, hv⟩ := (yieldsAtOnce_iff hexpression store chain.le tags t v).mp hyields
        obtain ⟨u, hu⟩ := Function.mem_onSamples hv
        exact Samples.mem_restrict hu
      obtain ⟨w, hw, hwindow⟩ := chain.covers hin.1 hin.2
      rw [← hyield.windows_eq] at hw
      obtain ⟨batch, hbatch, rfl⟩ := List.mem_map.mp hw
      exact ⟨batch, hbatch, (hbatches batch hbatch name tags t v hgrid hnumber).mpr ⟨hyields, hwindow⟩⟩
  · have hpairwise := chain.pairwise
    rw [← hyield.windows_eq, List.pairwise_map] at hpairwise
    refine pairwise_tells hresults (hpairwise.imp_of_mem fun {b c} hb hc hle hboth => ?_)
    have hleft := ((hbatches b hb name tags t v hgrid hnumber).mp hboth.1).2
    have hright := ((hbatches c hc name tags t v hgrid hnumber).mp hboth.2).2
    omega

end

/-- Streaming built-in expressions from a store, up to an end that a clock shows, tells window by window the
values on the grid that one evaluation over the whole range has, each in exactly one event, whatever the
options are. -/
theorem streaming_refines_at_once {plan : Plan} {store : Store} {options : StreamOptions}
    {lead : Nat → Lead} {x : Execution}
    (builtin : ∀ p ∈ plan.expressions, ∃ f q, p.expression = Function.toExpression f q)
    (shown : Instant.Shown plan.stop)
    (hx : execute plan store.toBackend options lead = .ok (.ok x)) :
    (∀ p ∈ plan.expressions, ∃ ev, p.expression.evaluate plan.span store.contents .empty = .ok (.ok ev)) ∧
    (∃ pulls, (x.follow (List.replicate pulls .pull)).Drained) ∧
    ∀ steps, (x.follow steps).Drained →
      ∀ name tags t v, plan.step ∣ t → v.isNaN = false →
        ((∃ e ∈ (x.follow steps).events, e.Tells name tags t v) ↔
          YieldAtOnce plan.expressions store plan.span name tags t v) ∧
        (YieldAtOnce plan.expressions store plan.span name tags t v →
          ∃ before e after, (x.follow steps).events = before ++ e :: after ∧ e.Tells name tags t v ∧
            ∀ d ∈ before ++ after, ¬d.Tells name tags t v) ∧
        ∀ options' lead' y steps', execute plan store.toBackend options' lead' = .ok (.ok y) →
          (y.follow steps').Drained →
            ((∃ e ∈ (x.follow steps).events, e.Tells name tags t v) ↔
              ∃ e ∈ (y.follow steps').events, e.Tells name tags t v) := by
  obtain ⟨windows, started⟩ := started_of_execute hx
  obtain ⟨_, _, _, _, chain, _⟩ := partition_chain started.cut
  refine ⟨evaluates_at_once store builtin chain.le, ?_, ?_⟩
  · obtain ⟨batches, final, hyield, _⟩ := yields_of_builtin started builtin shown
    refine Execution.exists_drained started.sound started.beating ?_
    rw [started.course, courseOver_of_yields chain hyield]
    exact batches_whole batches
  · intro steps drained name tags t v hgrid hnumber
    obtain ⟨htells, hpairwise⟩ := tells_iff_at_once started builtin shown drained hgrid hnumber
    refine ⟨htells, fun hyields => ?_, fun options' lead' y steps' hy drained' => ?_⟩
    · obtain ⟨e, he, hshows⟩ := htells.mpr hyields
      obtain ⟨before, after, hevents, hothers⟩ := one_of_pairwise hpairwise he hshows
      exact ⟨before, e, after, hevents, hshows, hothers⟩
    · obtain ⟨_, started'⟩ := started_of_execute hy
      rw [htells, (tells_iff_at_once started' builtin shown drained' hgrid hnumber).1]

/-- Samples in the first two windows of `Plan.sample`. -/
def Store.sample : Store := (Store.empty.write "cpu" OrderedMap.empty [(0, 1.5), (1000, 2.5)]).2

def Plan.sums : Plan := { Plan.sample with expressions := [⟨"total", Function.runningSum.toExpression "cpu"⟩] }

theorem sum_over_windows_is_told_once :
    ∃ x, execute .sums Store.sample.toBackend .fine (fun _ => .heartbeat) = .ok (.ok x) ∧
      ∃ steps, (x.follow steps).Drained ∧
        ∃ before e after, (x.follow steps).events = before ++ e :: after ∧
          e.Tells "total" OrderedMap.empty 1000 4.0 ∧
          ∀ d ∈ before ++ after, ¬d.Tells "total" OrderedMap.empty 1000 4.0 := by
  obtain ⟨x, hx⟩ : ∃ x, execute .sums Store.sample.toBackend .fine (fun _ => .heartbeat) = .ok (.ok x) :=
    ⟨_, rfl⟩
  have builtin : ∀ p ∈ Plan.sums.expressions, ∃ f q, p.expression = Function.toExpression f q := by
    intro p hp
    obtain rfl := List.mem_singleton.mp hp
    exact ⟨.runningSum, "cpu", rfl⟩
  obtain ⟨-, ⟨pulls, drained⟩, hall⟩ := streaming_refines_at_once builtin (by decide) hx
  refine ⟨x, hx, _, drained, ?_⟩
  refine (hall _ drained "total" OrderedMap.empty 1000 4.0 (by decide) (by decide +kernel)).2.1 ?_
  exact ⟨_, List.mem_singleton_self _, rfl, _, rfl, _, List.mem_singleton_self _, rfl,
    List.mem_of_getElem? (i := 1) (by decide +kernel)⟩

end SeriesStream
