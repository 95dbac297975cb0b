import SeriesStream.Proofs.Calls
import SeriesStream.Proofs.Filtering

namespace SeriesStream

namespace Window

/-- The second window begins no earlier than the first, and no instant lies in both. -/
def Precedes (v w : Window) : Prop :=
  v.start ≤ w.start ∧ ∀ t, ¬(v.contains t = true ∧ w.contains t = true)

theorem precedes_of_le {v w : Window} (forward : v.start ≤ v.stop) (behind : v.stop ≤ w.start) :
    v.Precedes w := by
  refine ⟨by omega, fun t ⟨hv, hw⟩ => ?_⟩
  simp only [contains, decide_eq_true_eq] at hv hw
  omega

/-- Behind a window the adjacent ones lie behind its end, as long as none of them but the last is inverted. -/
theorem stop_le_start_of_adjacent {v : Window} {ws : List Window}
    (adjacent : (v :: ws).IsChain fun v w => w.start = v.stop)
    (forward : ∀ w ∈ ws.dropLast, w.start ≤ w.stop) : ∀ w ∈ ws, v.stop ≤ w.start := by
  induction ws generalizing v with
  | nil => simp
  | cons u rest ih =>
    obtain ⟨hu, hrest⟩ := List.isChain_cons_cons.mp adjacent
    refine List.forall_mem_cons.mpr ⟨Int.le_of_eq hu.symm, fun w hw => ?_⟩
    have hne : rest ≠ [] := List.ne_nil_of_mem hw
    rw [List.dropLast_cons_of_ne_nil hne] at forward
    obtain ⟨huforward, hforward⟩ := List.forall_mem_cons.mp forward
    have hbehind := ih hrest hforward w hw
    omega

/-- Adjacent windows precede one another exactly if none of them but the last is inverted. -/
theorem pairwise_precedes_iff {ws : List Window} (adjacent : ws.IsChain fun v w => w.start = v.stop) :
    ws.Pairwise Precedes ↔ ∀ w ∈ ws.dropLast, w.start ≤ w.stop := by
  induction ws with
  | nil => simp
  | cons v rest ih =>
    cases rest with
    | nil => simp
    | cons u rest =>
      obtain ⟨hu, hrest⟩ := List.isChain_cons_cons.mp adjacent
      rw [List.dropLast_cons_of_ne_nil (by simp), List.forall_mem_cons, List.pairwise_cons, ih hrest]
      constructor
      · rintro ⟨hv, hforward⟩
        have hle := (hv u List.mem_cons_self).1
        exact ⟨by omega, hforward⟩
      · rintro ⟨hvforward, hforward⟩
        have hbehind := stop_le_start_of_adjacent adjacent hforward
        exact ⟨fun w hw => precedes_of_le hvforward (hbehind w hw), hforward⟩

end Window

/-- On an inverted window the check for NaN lets nothing through but a list without any series. -/
theorem series_of_inverted {w : Window} (inverted : w.stop < w.start) {series : List TimeSeries}
    {kept : List TimeSeries × Nat} (h : keepInformative w series = .ok kept) : series = [] := by
  by_contra hsome
  have := (bounds_of_keepInformative h hsome).1
  omega

theorem runSlots_of_inverted {c : Chunk} (inverted : c.window.stop < c.window.start) {slots next : List Slot}
    {results : List WindowSeries} {filtered : Nat}
    (h : runSlots c slots = .ok ⟨next, .ok (results, filtered)⟩) :
    results = [] ∧ ∀ slot ∈ slots, ∃ state, slot.evaluate c = .ok (.ok ⟨[], state⟩) := by
  induction slots generalizing next results filtered with
  | nil =>
    simp only [runSlots, Except.ok.injEq, SlotsRun.mk.injEq, Prod.mk.injEq] at h
    exact ⟨h.2.1.symm, by simp⟩
  | cons slot rest ih =>
    obtain ⟨⟨series, state⟩, kept, left, next', more, others, hslot, hkept, hrest, rfl, -⟩ := runSlots_cons_ok h
    obtain rfl : series = [] := series_of_inverted inverted hkept
    obtain ⟨rfl, -⟩ := Prod.mk.inj (Except.ok.inj hkept)
    obtain ⟨rfl, hsilent⟩ := ih hrest
    exact ⟨rfl, List.forall_mem_cons.mpr ⟨⟨state, hslot⟩, hsilent⟩⟩

/-- Slots that have no series are not asked for the bounds of the window. -/
theorem runSlots_of_silent {c : Chunk} {slots : List Slot}
    (h : ∀ slot ∈ slots, ∃ state, slot.evaluate c = .ok (.ok ⟨[], state⟩)) :
    ∃ next, runSlots c slots = .ok ⟨next, .ok ([], 0)⟩ := by
  induction slots with
  | nil => exact ⟨[], rfl⟩
  | cons slot rest ih =>
    obtain ⟨⟨state, hslot⟩, hrest⟩ := List.forall_mem_cons.mp h
    obtain ⟨next, hnext⟩ := ih hrest
    have hevaluate : slot.planned.expression.evaluate c.window c.data slot.state = .ok (.ok ⟨[], state⟩) := hslot
    refine ⟨{ slot with state } :: next, ?_⟩
    simp only [runSlots, hevaluate, keepInformative, hnext, bind, Except.bind]
    rfl

namespace Evaluator

/-- The windows that yielded a batch, one after the other. -/
def acceptedWindows (answers : List CallAnswer) : List Window :=
  (answers.filterMap CallAnswer.batch?).map (·.window)

/-- However an evaluator is called, the windows that it accepts rise and have no instant in common exactly if
none of them but the last is inverted. And an inverted window that is next in turn is accepted, without any
result, exactly if no expression has a series on it. -/
theorem accepted_windows_rise_unless_inverted {expressions : List PlannedExpression}
    {calls : List EvaluatorCall} {answers : List CallAnswer} {e : Evaluator}
    (h : (ofPlan expressions).performAll calls = .ok (answers, e)) :
    ((acceptedWindows answers).Pairwise Window.Precedes ↔
      ∀ w ∈ (acceptedWindows answers).dropLast, w.start ≤ w.stop) ∧
    ∀ c, c.window.stop < c.window.start → e.phase.isTerminal = false →
      (∀ v, (acceptedWindows answers).getLast? = some v → c.window.start = v.stop) →
      ((∃ b after, e.evaluate c = .ok (.ok b, after)) ↔
        ∀ slot ∈ e.slots, ∃ state, slot.evaluate c = .ok (.ok ⟨[], state⟩)) ∧
      ∀ b after, e.evaluate c = .ok (.ok b, after) → b.results = [] := by
  have books : Books expressions (answers.filterMap CallAnswer.batch?) e := by
    simpa using (books_ofPlan expressions).performAll h
  have hadjacent : (acceptedWindows answers).IsChain fun v w => w.start = v.stop :=
    (List.isChain_map _).mpr books.adjacent
  refine ⟨Window.pairwise_precedes_iff hadjacent, fun c inverted running inTurn => ?_⟩
  have hbatch : ∀ b after, e.evaluate c = .ok (.ok b, after) →
      b.results = [] ∧ ∀ slot ∈ e.slots, ∃ state, slot.evaluate c = .ok (.ok ⟨[], state⟩) := by
    intro b after heval
    have hcases := e.evaluate_cases c
    rw [heval] at hcases
    cases hcases with
    | batch _ _ run => exact runSlots_of_inverted inverted run
  refine ⟨⟨fun ⟨b, after, heval⟩ => (hbatch b after heval).2, fun hsilent => ?_⟩,
    fun b after heval => (hbatch b after heval).1⟩
  obtain ⟨next, hnext⟩ := runSlots_of_silent hsilent
  have hstart : ∀ s, e.nextStart = some s → s = c.window.start := by
    intro s hs
    rw [books.next] at hs
    obtain ⟨b, hlast, rfl⟩ := Option.map_eq_some_iff.mp hs
    have hwindow : (acceptedWindows answers).getLast? = some b.window := by
      rw [acceptedWindows, List.getLast?_map, hlast, Option.map_some]
    exact (inTurn b.window hwindow).symm
  exact ⟨_, _, evaluate_of_run running hstart hnext⟩

/-- One sample at the first instant. -/
def firstSample : RawData := OrderedMap.ofList [("cpu", [.ofPoints .empty [(0, 1.5)]])]

/-- An evaluator that adds up the samples. -/
def adder : Evaluator := ofPlan [⟨"total", Function.runningSum.toExpression "cpu"⟩]

theorem inverted_window_is_accepted_in_turn :
    ∃ answers e, adder.performAll [.evaluate ⟨⟨0, 2000, 1000⟩, firstSample⟩, .evaluate ⟨⟨2000, 3000, 1000⟩, .empty⟩] =
        .ok (answers, e) ∧
      (acceptedWindows answers).Pairwise Window.Precedes ∧
      ∃ b after, e.evaluate ⟨⟨3000, 0, 1000⟩, .empty⟩ = .ok (.ok b, after) ∧ b.results = [] := by
  obtain ⟨answers, e, hrun, haccepted, running, hsilent⟩ : ∃ answers e,
      adder.performAll [.evaluate ⟨⟨0, 2000, 1000⟩, firstSample⟩, .evaluate ⟨⟨2000, 3000, 1000⟩, .empty⟩] =
        .ok (answers, e) ∧
      acceptedWindows answers = [⟨0, 2000, 1000⟩, ⟨2000, 3000, 1000⟩] ∧ e.phase.isTerminal = false ∧
      ∀ slot ∈ e.slots, ∃ state, slot.evaluate ⟨⟨3000, 0, 1000⟩, .empty⟩ = .ok (.ok ⟨[], state⟩) := by
    refine ⟨_, _, rfl, rfl, rfl, fun slot hslot => ?_⟩
    obtain rfl := List.mem_singleton.mp hslot
    exact ⟨_, rfl⟩
  obtain ⟨hrise, hinverted⟩ := accepted_windows_rise_unless_inverted hrun
  obtain ⟨haccept, hresults⟩ := hinverted ⟨⟨3000, 0, 1000⟩, .empty⟩ (by decide) running (by simp [haccepted])
  obtain ⟨b, after, heval⟩ := haccept.mpr hsilent
  exact ⟨answers, e, hrun, hrise.mpr (by rw [haccepted]; decide), b, after, heval, hresults b after heval⟩

/-- Two seconds, the same backwards without any data, and the first two again. -/
def thereAndBack : List EvaluatorCall :=
  [.evaluate ⟨⟨0, 2000, 1000⟩, firstSample⟩, .evaluate ⟨⟨2000, 0, 1000⟩, .empty⟩,
    .evaluate ⟨⟨0, 2000, 1000⟩, firstSample⟩]

/-- The inverted window leads back to the first sample, which is told twice and added to the total twice. -/
theorem inverted_window_leads_back :
    ∃ answers e, adder.performAll thereAndBack = .ok (answers, e) ∧
      acceptedWindows answers = [⟨0, 2000, 1000⟩, ⟨2000, 0, 1000⟩, ⟨0, 2000, 1000⟩] ∧
      ((answers.filterMap CallAnswer.batch?).map fun b => b.results.map (·.values.entries)) =
        [[[(0, 1.5)]], [], [[(0, 3.0)]]] ∧
      ¬(acceptedWindows answers).Pairwise Window.Precedes := by
  obtain ⟨answers, e, hrun, haccepted, htold⟩ : ∃ answers e,
      adder.performAll thereAndBack = .ok (answers, e) ∧
      acceptedWindows answers = [⟨0, 2000, 1000⟩, ⟨2000, 0, 1000⟩, ⟨0, 2000, 1000⟩] ∧
      ((answers.filterMap CallAnswer.batch?).map fun b => b.results.map (·.values.entries)) =
        [[[(0, 1.5)]], [], [[(0, 3.0)]]] := ⟨_, _, rfl, rfl, rfl⟩
  refine ⟨answers, e, hrun, haccepted, htold, fun hrise => ?_⟩
  rw [haccepted] at hrise
  have hback := (List.pairwise_cons.mp (List.pairwise_cons.mp hrise).2).1 ⟨0, 2000, 1000⟩ (by simp)
  exact absurd hback.1 (by decide)

end Evaluator

end SeriesStream
