import SeriesStream.Proofs.ReadAhead

namespace SeriesStream

theorem Tally.getD_count (t : Tally) (label kind : String) :
    (t.count label).getD kind 0 = t.getD kind 0 + if label = kind then 1 else 0 := by
  unfold Tally.count OrderedMap.getD
  by_cases same : label = kind
  · subst kind
    simp [OrderedMap.get?_insert_self]
  · have other : kind ≠ label := Ne.symm same
    simp [OrderedMap.get?_insert_other t _ other, same]

/-- How an execution is to be counted whose consumer was told these events before it was over. -/
structure Outcome.Fits (o : Outcome) (told : List StreamEvent) : Prop where
  completed : o = .completed ↔ .close ∈ told ∧ ∀ message, .error message ∉ told
  failed : o = .failed ↔ .close ∈ told ∧ ∃ message, .error message ∈ told
  cancelled : o = .cancelled ↔ .close ∉ told

namespace Execution

/-- What a process counts on account of a call: what the execution has counted, if there is one. -/
def counted : Except RangeError Execution → Metrics
  | .error _ => .zero
  | .ok x => x.metrics

/-- What a consumer has made of an execution: the events it was told, whether it was told the end or went
away, and the execution as it then is. A pull that is given up, or that breaks off, leaves the execution
as it was while the pull waited. -/
inductive Attends (x : Execution) : List StreamEvent → Bool → Execution → Prop
  | here : Attends x [] false x
  | told {es : List StreamEvent} {past : Bool} {y z : Execution} {e : StreamEvent} (h : Attends x es past y)
      (pulled : y.pull = .ok (some e, z)) : Attends x (es ++ [e]) past z
  | ended {es : List StreamEvent} {past : Bool} {y z : Execution} (h : Attends x es past y)
      (pulled : y.pull = .ok (none, z)) : Attends x es true z
  | givenUp {es : List StreamEvent} {past : Bool} {y z : Execution} {p : Pipeline} {choices : Nat}
      (h : Attends x es past y) (there : y.outcome = none) (quiet : Silently y z)
      (streaming : z.phase = .streaming) (waits : z.pipeline.Waits p) :
      Attends x es past { z with pipeline := p, choices := choices }
  | sleep {es : List StreamEvent} {past : Bool} {y : Execution} (h : Attends x es past y) (duration : Nat) :
      Attends x es past (y.sleep duration)
  | drop {es : List StreamEvent} {past : Bool} {y : Execution} (h : Attends x es past y) :
      Attends x es true y.drop

section

variable {x y z : Execution} {es : List StreamEvent} {past : Bool}

/-- A turn counts nothing, and only an error that is told marks the execution as failed. -/
theorem books_of_turn {t : Turn} (sound : x.Sound) (h : x.turn = .ok (t, y)) :
    y.events = x.events ∧ y.outcome = x.outcome ∧
      (y.failed = true ↔ x.failed = true ∨ ∃ message, t = .event (.error message)) := by
  have hcases := turn_cases sound.pipeline
  rw [h] at hcases
  cases hcases with
  | ended => exact ⟨rfl, rfl, by simp⟩
  | closed => exact ⟨rfl, rfl, by simp⟩
  | beat _ _ _ _ result =>
    obtain ⟨rfl, rfl⟩ := Prod.mk.inj result
    exact ⟨rfl, rfl, by simp⟩
  | handed _ _ _ reacted => cases reacted <;> exact ⟨rfl, rfl, by simp⟩

theorem Silently.books (h : Silently x y) (sound : x.Sound) :
    y.events = x.events ∧ y.outcome = x.outcome ∧ y.failed = x.failed := by
  induction h with
  | refl => exact ⟨rfl, rfl, rfl⟩
  | turn first _ ih =>
    obtain ⟨hevents, houtcome, hfailed⟩ := books_of_turn sound first
    obtain ⟨ihEvents, ihOutcome, ihFailed⟩ := ih (advances_of_turn sound first).sound
    refine ⟨ihEvents.trans hevents, ihOutcome.trans houtcome, ihFailed.trans ?_⟩
    rw [Bool.eq_iff_iff, hfailed]
    simp

theorem books_of_told {e : StreamEvent} (sound : x.Sound) (h : x.pull = .ok (some e, y)) :
    y.events = x.events.count e.kind ∧ y.outcome = x.outcome ∧
      (y.failed = true ↔ x.failed = true ∨ ∃ message, e = .error message) := by
  have hcases := pull_cases sound
  rw [h] at hcases
  cases hcases with
  | event quiet turn =>
    obtain ⟨hevents, houtcome, hfailed⟩ := quiet.books sound
    obtain ⟨hevents', houtcome', hfailed'⟩ := books_of_turn (quiet.advances sound).sound turn
    refine ⟨by rw [hevents', hevents], houtcome'.trans houtcome, ?_⟩
    simpa [hfailed] using hfailed'

/-- Who is told the end leaves the execution, and it was finished before. -/
theorem drop_of_ended (sound : x.Sound) (there : x.outcome = none) (h : x.pull = .ok (none, y)) :
    y = x.drop := by
  have hcases := pull_cases sound
  rw [h] at hcases
  cases hcases with
  | past counted => simp [there] at counted
  | ended quiet turn =>
    have hfinished := (phase_of_turn (quiet.advances sound).sound turn).1
    rcases quiet.phase sound with rfl | ⟨-, hunfinished⟩
    · rfl
    · exact absurd hfinished hunfinished

/-- An execution that goes on and what its consumer was told so far. -/
structure Going (es : List StreamEvent) (y : Execution) : Prop where
  sound : y.Sound
  there : y.outcome = none
  closed : y.phase = .finished ↔ .close ∈ es
  failed : y.failed = true ↔ ∃ message, .error message ∈ es

theorem Going.verdict (h : y.Going es) : y.verdict.Fits es := by
  have hclosed := h.closed
  have hfailed := h.failed
  unfold Execution.verdict
  split
  next hphase hgood =>
    have hclose : StreamEvent.close ∈ es := hclosed.mp hphase
    have hnone : ∀ message, StreamEvent.error message ∉ es := by simpa [hgood] using hfailed
    exact ⟨by simpa [hclose] using hnone, by simpa [hclose] using hnone, by simp [hclose]⟩
  next hphase hbad =>
    have hclose : StreamEvent.close ∈ es := hclosed.mp hphase
    have hsome : ∃ message, StreamEvent.error message ∈ es := hfailed.mp hbad
    exact ⟨by simpa [hclose] using hsome, by simpa [hclose] using hsome, by simp [hclose]⟩
  next hnot hnot' =>
    have hclose : StreamEvent.close ∉ es := by
      rw [← hclosed]
      intro hphase
      cases hbad : y.failed with
      | false => exact hnot hphase hbad
      | true => exact hnot' hphase hbad
    exact ⟨by simp [hclose], by simp [hclose], by simp [hclose]⟩

theorem Going.told {e : StreamEvent} (h : y.Going es) (pulled : y.pull = .ok (some e, z)) :
    z.Going (es ++ [e]) := by
  obtain ⟨-, houtcome, hfailed⟩ := books_of_told h.sound pulled
  have hphase := phase_of_pull h.sound pulled
  refine ⟨(advances_of_pull h.sound pulled).sound, houtcome.trans h.there, ?_, ?_⟩
  -- an execution is finished by the `close` that it tells and by nothing else
  · have hopen (hstreaming : y.phase = .streaming) : StreamEvent.close ∉ es := by
      rw [← h.closed, hstreaming]
      simp
    cases e with
    | info message => simp [hphase.2, hopen hphase.1]
    | data results => simp [hphase.2.1, hopen hphase.1]
    | error message => simp [hphase.2, hopen hphase.1]
    | close => simp [hphase.2]
  · rw [hfailed, h.failed]
    simp only [List.mem_append, List.mem_singleton, exists_or]
    exact or_congr_right ⟨fun ⟨m, hm⟩ => ⟨m, hm.symm⟩, fun ⟨m, hm⟩ => ⟨m, hm.symm⟩⟩

theorem Going.sleep (h : y.Going es) (duration : Nat) : (y.sleep duration).Going es :=
  ⟨(advances_sleep h.sound duration).sound, h.there, h.closed, h.failed⟩

theorem Going.givenUp {p : Pipeline} {choices : Nat} (h : y.Going es) (quiet : Silently y z)
    (streaming : z.phase = .streaming) (waits : z.pipeline.Waits p) :
    Going es { z with pipeline := p, choices := choices } := by
  obtain ⟨-, houtcome, hfailed⟩ := quiet.books h.sound
  have hsound := (quiet.advances h.sound).sound
  have hthere : z.outcome = none := houtcome.trans h.there
  have hopen : StreamEvent.close ∉ es := by
    rw [← h.closed]
    rcases quiet.phase h.sound with rfl | ⟨hstreaming, -⟩
    · simp [streaming]
    · simp [hstreaming]
  refine ⟨⟨waits.sound hsound.pipeline, ?_, ?_⟩, hthere, ?_, ?_⟩
  · exact fun hphase => absurd streaming hphase
  · simp [hthere]
  · simp [streaming, hopen]
  · exact hfailed ▸ h.failed

/-- What an execution has counted, by what its consumer was told and whether it is over. -/
structure Kept (es : List StreamEvent) (past : Bool) (y : Execution) : Prop where
  events : ∀ kind, y.events.getD kind 0 = es.countP (·.kind = kind)
  going : past = false → y.Going es
  gone : past = true → ∃ o, y.outcome = some o ∧ o.Fits es

/-- Nobody is told an event by an execution that is over. -/
theorem Kept.going_of_told {e : StreamEvent} (h : y.Kept es past) (pulled : y.pull = .ok (some e, z)) :
    past = false := by
  rw [Bool.eq_false_iff]
  intro hpast
  obtain ⟨o, houtcome, -⟩ := h.gone hpast
  simp [Execution.pull, houtcome] at pulled

theorem Kept.drop (h : y.Kept es past) : y.drop.Kept es true := by
  refine ⟨h.events, by simp, fun _ => ?_⟩
  cases past with
  | false => exact ⟨y.verdict, by simp [Execution.drop, (h.going rfl).there], (h.going rfl).verdict⟩
  | true =>
    obtain ⟨o, houtcome, hfits⟩ := h.gone rfl
    exact ⟨o, by simp [Execution.drop, houtcome], hfits⟩

theorem Kept.told {e : StreamEvent} (h : y.Kept es past) (pulled : y.pull = .ok (some e, z)) :
    z.Kept (es ++ [e]) past := by
  have hpast := h.going_of_told pulled
  have hgoing := h.going hpast
  refine ⟨fun kind => ?_, fun _ => hgoing.told pulled, by simp [hpast]⟩
  rw [(books_of_told hgoing.sound pulled).1, Tally.getD_count, h.events, List.countP_append]
  simp [List.countP_singleton]

theorem Kept.ended (h : y.Kept es past) (pulled : y.pull = .ok (none, z)) : z.Kept es true := by
  cases past with
  | false =>
    have hgoing := h.going rfl
    rw [drop_of_ended hgoing.sound hgoing.there pulled]
    exact h.drop
  | true =>
    obtain ⟨o, houtcome, -⟩ := h.gone rfl
    obtain rfl : y = z := by simpa [Execution.pull, houtcome] using pulled
    exact h

theorem Kept.givenUp {p : Pipeline} {choices : Nat} (h : y.Kept es past) (there : y.outcome = none)
    (quiet : Silently y z) (streaming : z.phase = .streaming) (waits : z.pipeline.Waits p) :
    Kept es past { z with pipeline := p, choices := choices } := by
  have hpast : past = false := by
    rw [Bool.eq_false_iff]
    intro hpast
    obtain ⟨o, houtcome, -⟩ := h.gone hpast
    simp [there] at houtcome
  have hgoing := h.going hpast
  have hevents := (quiet.books hgoing.sound).1
  exact ⟨hevents ▸ h.events, fun _ => hgoing.givenUp quiet streaming waits, by simp [hpast]⟩

theorem Kept.attends (h : x.Kept [] false) (ha : x.Attends es past y) : y.Kept es past := by
  induction ha with
  | here => exact h
  | told _ pulled ih => exact ih.told pulled
  | ended _ pulled ih => exact ih.ended pulled
  | givenUp _ there quiet streaming waits ih => exact ih.givenUp there quiet streaming waits
  | sleep _ duration ih => exact ⟨ih.events, fun hpast => (ih.going hpast).sleep duration, ih.gone⟩
  | drop _ ih => exact ih.drop

end

end Execution

theorem kept_of_execute {plan : Plan} {backend : Backend} {options : StreamOptions} {lead : Nat → Lead}
    {x : Execution} (h : execute plan backend options lead = .ok (.ok x)) : x.Kept [] false := by
  obtain ⟨_, cut, beating, rfl⟩ := begun_of_execute h
  have started := started_begun backend lead cut beating
  exact ⟨fun _ => rfl, fun _ => ⟨started.sound, rfl, by simp [Plan.begun], by simp [Plan.begun]⟩, by simp⟩

end SeriesStream
