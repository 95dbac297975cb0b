import SeriesStream.Proofs.Informative

namespace SeriesStream

/-- On a proper window the expression answers, be it with a failure. -/
def Expression.Steady (e : Expression) : Prop :=
  ∀ (w : Window) (d : RawData) (s : CarriedState), w.Proper → ∃ result, e.evaluate w d s = .ok result

namespace Slot

def evaluate (slot : Slot) (c : Chunk) : Except Fault (Except QueryError Evaluation) :=
  slot.planned.expression.evaluate c.window c.data slot.state

/-- What is shown of the series that a slot yields: those with a number on the window's grid. -/
def shown (slot : Slot) (c : Chunk) (series : List TimeSeries) : List WindowSeries :=
  (series.filter (!·.blank c.window)).map fun s => ⟨slot.planned.name, c.window, s.tags, s.values⟩

/-- All slots evaluate the chunk, with these results and these slots after it. -/
inductive AllYield (c : Chunk) : List Slot → List WindowSeries → List Slot → Prop
  | nil : AllYield c [] [] []
  | cons {slot : Slot} {slots slots' : List Slot} {results : List WindowSeries} {ev : Evaluation}
      (yields : slot.evaluate c = .ok (.ok ev)) (rest : AllYield c slots results slots') :
      AllYield c (slot :: slots) (slot.shown c ev.series ++ results)
        ({ slot with state := ev.state } :: slots')

/-- Some slot fails on the chunk, and the first that does fails with this error, told with the name of
its expression. -/
inductive OneFails (c : Chunk) : List Slot → QueryError → Prop
  | here {slot : Slot} {slots : List Slot} {e : QueryError} (fails : slot.evaluate c = .ok (.error e)) :
      OneFails c (slot :: slots) ⟨e.kind, s!"expression '{slot.planned.name}': {e.message}"⟩
  | later {slot : Slot} {slots : List Slot} {e : QueryError} {ev : Evaluation}
      (yields : slot.evaluate c = .ok (.ok ev)) (rest : OneFails c slots e) :
      OneFails c (slot :: slots) e

end Slot

theorem runSlots_of_allYield {c : Chunk} {slots slots' : List Slot} {results : List WindowSeries}
    (proper : c.window.Proper) (h : Slot.AllYield c slots results slots') :
    ∃ filtered, runSlots c slots = .ok ⟨slots', .ok (results, filtered)⟩ := by
  induction h with
  | nil => exact ⟨0, rfl⟩
  | @cons slot slots slots' results ev yields rest ih =>
    obtain ⟨filtered, hrest⟩ := ih
    have hslot : slot.planned.expression.evaluate c.window c.data slot.state = .ok (.ok ev) := yields
    refine ⟨ev.series.countP (·.blank c.window) + filtered, ?_⟩
    simp only [runSlots, hslot, keepInformative_of_proper proper, hrest, bind, Except.bind]
    rfl

theorem runSlots_of_oneFails {c : Chunk} {slots : List Slot} {e : QueryError}
    (proper : c.window.Proper) (h : Slot.OneFails c slots e) :
    ∃ slots', runSlots c slots = .ok ⟨slots', .error e⟩ := by
  induction h with
  | @here slot slots e fails =>
    have hslot : slot.planned.expression.evaluate c.window c.data slot.state = .ok (.error e) := fails
    refine ⟨{ slot with state := .empty } :: slots, ?_⟩
    simp only [runSlots, hslot, bind, Except.bind]
    rfl
  | @later slot slots e ev yields rest ih =>
    obtain ⟨slots', hrest⟩ := ih
    have hslot : slot.planned.expression.evaluate c.window c.data slot.state = .ok (.ok ev) := yields
    refine ⟨{ slot with state := ev.state } :: slots', ?_⟩
    simp only [runSlots, hslot, keepInformative_of_proper proper, hrest, bind, Except.bind]
    rfl

namespace Slot

theorem allYield_or_oneFails {c : Chunk} {slots : List Slot} (proper : c.window.Proper)
    (steady : ∀ s ∈ slots, s.planned.expression.Steady) :
    (∃ results slots', AllYield c slots results slots') ∨ ∃ e, OneFails c slots e := by
  induction slots with
  | nil => exact Or.inl ⟨[], [], .nil⟩
  | cons slot slots ih =>
    obtain ⟨hslot, hrest⟩ := List.forall_mem_cons.mp steady
    obtain ⟨result, hresult⟩ := hslot c.window c.data slot.state proper
    cases result with
    | error e => exact Or.inr ⟨_, .here hresult⟩
    | ok ev =>
      rcases ih hrest with ⟨results, slots', hyield⟩ | ⟨e, hfail⟩
      · exact Or.inl ⟨_, _, .cons hresult hyield⟩
      · exact Or.inr ⟨e, .later hresult hfail⟩

/-- The expressions stay as planned, only their states change. -/
theorem AllYield.planned_eq {c : Chunk} {slots slots' : List Slot} {results : List WindowSeries}
    (h : AllYield c slots results slots') : slots'.map planned = slots.map planned := by
  induction h with
  | nil => rfl
  | cons _ _ ih => simp [ih]

/-- What holds of all expressions still holds of them behind the chunk. -/
theorem AllYield.forall_planned {c : Chunk} {slots slots' : List Slot} {results : List WindowSeries}
    (h : AllYield c slots results slots') {P : PlannedExpression → Prop} (all : ∀ slot ∈ slots, P slot.planned) :
    ∀ slot ∈ slots', P slot.planned := by
  intro slot hslot
  have hplanned := List.mem_map_of_mem (f := planned) hslot
  rw [h.planned_eq] at hplanned
  obtain ⟨slot', hslot', heq⟩ := List.mem_map.mp hplanned
  exact heq ▸ all slot' hslot'

theorem AllYield.window_eq {c : Chunk} {slots slots' : List Slot} {results : List WindowSeries}
    (h : AllYield c slots results slots') : ∀ r ∈ results, r.window = c.window := by
  induction h with
  | nil => simp
  | @cons slot slots slots' results ev _ _ ih =>
    intro r hr
    rcases List.mem_append.mp hr with hr | hr
    · obtain ⟨s, _, rfl⟩ := List.mem_map.mp hr
      rfl
    · exact ih r hr

end Slot

end SeriesStream
