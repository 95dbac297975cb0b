import SeriesStream.Proofs.Consumer

namespace SeriesStream

namespace Execution

/-- What pulls bring down: the events left besides heartbeats, then the request to be sent for the next
window, then the time for heartbeats until it is answered. -/
def outlook (x : Execution) : Nat × Nat × Nat :=
  (x.remaining, 1 - x.pipeline.fetcher.asked, x.pipeline.fetcher.horizon + 1 - x.nextBeat)

def Nearer (y x : Execution) : Prop :=
  Prod.Lex (· < ·) (Prod.Lex (· < ·) (· < ·)) y.outlook x.outlook

theorem nearer_of_remaining {x y : Execution} (h : y.remaining < x.remaining) : y.Nearer x :=
  .left _ _ h

/-- A beat tells that no more than a request was sent, or that time went by. -/
theorem nearer_of_beat {x y : Execution} {m : String} (sound : x.Sound) (hbeat : 0 < x.options.heartbeat)
    (h : x.turn = .ok (.event (.info m), y)) : y.Nearer x := by
  have hremaining := (phase_of_turn sound h).2.2
  have hcases := turn_cases sound.pipeline
  rw [h] at hcases
  cases hcases with
  | @beat p n _ phase waits reached nearer result =>
    obtain ⟨-, rfl⟩ := Prod.mk.inj result
    unfold Nearer outlook
    rw [hremaining]
    refine .right _ ?_
    -- either the beat came while the first request went out, or it used up some of the time until the answer
    rcases nearer with hmore | ⟨hsame, hhorizon, hbound⟩
    · have := p.fetcher.asked_le_one
      exact .left _ _ (by simp only; omega)
    · simp only [hsame, hhorizon]
      refine .right _ ?_
      rw [hhorizon] at hbound
      split <;> omega
  | handed _ _ _ reacted => cases reacted

theorem nearer_of_event {x y : Execution} {e : StreamEvent} (sound : x.Sound)
    (hbeat : 0 < x.options.heartbeat) (h : x.turn = .ok (.event e, y)) : y.Nearer x := by
  have hphase := phase_of_turn sound h
  cases e with
  | info m => exact nearer_of_beat sound hbeat h
  | data results => exact nearer_of_remaining hphase.2.2.2
  | error m => exact nearer_of_remaining hphase.2.2
  | close => exact nearer_of_remaining (by simp [remaining, hphase.1, hphase.2])

theorem options_of_turn {x y : Execution} {t : Turn} (sound : x.Sound) (h : x.turn = .ok (t, y)) :
    y.options = x.options := by
  have hcases := turn_cases sound.pipeline
  rw [h] at hcases
  cases hcases with
  | ended => rfl
  | closed => rfl
  | beat _ _ _ _ result =>
    obtain ⟨-, rfl⟩ := Prod.mk.inj result
    rfl
  | handed _ _ _ reacted => cases reacted <;> rfl

theorem Silently.options {x y : Execution} (h : Silently x y) (sound : x.Sound) :
    y.options = x.options := by
  induction h with
  | refl => rfl
  | turn first _ ih => rw [ih (advances_of_turn sound first).sound, options_of_turn sound first]

theorem Silently.nearer {x y : Execution} (h : Silently x y) (sound : x.Sound) :
    y = x ∨ y.remaining < x.remaining := by
  induction h with
  | refl => exact Or.inl rfl
  | turn first _ ih =>
    have hless := (phase_of_turn sound first).2.2
    rcases ih (advances_of_turn sound first).sound with rfl | hrest
    · exact Or.inr hless
    · exact Or.inr (by omega)

theorem Nearer.of_le {x y z : Execution} (h : z.Nearer y) (hy : y.remaining < x.remaining) :
    z.Nearer x := by
  refine nearer_of_remaining (Nat.lt_of_le_of_lt ?_ hy)
  unfold Nearer outlook at h
  rcases Prod.lex_def.mp h with hlt | ⟨heq, -⟩
  · exact Nat.le_of_lt hlt
  · exact Nat.le_of_eq heq

theorem nearer_of_pull {x y : Execution} {e : StreamEvent} (sound : x.Sound)
    (hbeat : 0 < x.options.heartbeat) (h : x.pull = .ok (some e, y)) :
    y.Nearer x ∧ y.options = x.options := by
  have hcases := pull_cases sound
  rw [h] at hcases
  cases hcases with
  | @event v z _ quiet turn =>
    have hv := (quiet.advances sound).sound
    have hoptions := quiet.options sound
    have hnearer : z.Nearer v := nearer_of_event hv (by rwa [hoptions]) turn
    refine ⟨?_, (options_of_turn hv turn).trans hoptions⟩
    rcases quiet.nearer sound with rfl | hless
    · exact hnearer
    · exact Nearer.of_le (z := { z with events := _ }) hnearer hless

/-- Who keeps pulling is told the end, if no window breaks off. -/
theorem exists_drained {x : Execution} (sound : x.Sound) (hbeat : 0 < x.options.heartbeat)
    (whole : ∀ s ∈ x.pipeline.course, ∃ result, s.result = .ok result) :
    ∃ n, (x.follow (List.replicate n .pull)).Drained := by
  cases hp : x.pull with
  | error fault =>
    obtain ⟨_, _, w, hw⟩ := future_of_broken sound hp
    obtain ⟨_, hresult⟩ := whole _ hw
    cases hresult
  | ok result =>
    obtain ⟨e, y⟩ := result
    cases e with
    | none => exact ⟨1, y.now, by simp [follow, hp]⟩
    | some e =>
      have hadv := advances_of_pull sound hp
      obtain ⟨hnearer, hoptions⟩ := nearer_of_pull sound hbeat hp
      obtain ⟨n, t, ht⟩ := exists_drained hadv.sound (by rwa [hoptions])
        fun s hs => whole s (hadv.course.subset hs)
      exact ⟨n + 1, t, by simp [List.replicate_succ, follow, hp, ht]⟩
termination_by x.outlook
decreasing_by exact hnearer

end Execution

end SeriesStream
