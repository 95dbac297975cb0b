import SeriesStream.Http.Call

namespace SeriesStream

/-- A block that came to a value has come through its first step. -/
theorem exists_of_bind {ε α β : Type} {x : Except ε α} {f : α → Except ε β} {b : β} (h : x >>= f = .ok b) :
    ∃ a, x = .ok a ∧ f a = .ok b := by
  cases x with
  | error e => cases h
  | ok a => exact ⟨a, rfl, h⟩

theorem mapM_of_forall {α β ε : Type} {f : α → Except ε β} {P : β → Prop} {inputs : List α}
    (h : ∀ a ∈ inputs, ∃ b, f a = .ok b ∧ P b) : ∃ outputs, inputs.mapM f = .ok outputs ∧ ∀ b ∈ outputs, P b := by
  induction inputs with
  | nil => exact ⟨[], rfl, by simp⟩
  | cons a inputs ih =>
    obtain ⟨⟨b, hb, hp⟩, hrest⟩ := List.forall_mem_cons.mp h
    obtain ⟨outputs, houtputs, hall⟩ := ih hrest
    refine ⟨b :: outputs, ?_, List.forall_mem_cons.mpr ⟨hp, hall⟩⟩
    simp [List.mapM_cons, hb, houtputs, bind, Except.bind, pure, Except.pure]

theorem mapM_of_failing {α β ε : Type} {f : α → Except ε β} {Q : ε → Prop} {inputs : List α}
    (h : ∀ a ∈ inputs, (∃ b, f a = .ok b) ∨ ∃ e, f a = .error e ∧ Q e)
    (failing : ∃ a ∈ inputs, ∃ e, f a = .error e) : ∃ e, inputs.mapM f = .error e ∧ Q e := by
  induction inputs with
  | nil =>
    obtain ⟨a, ha, -⟩ := failing
    simp at ha
  | cons a inputs ih =>
    obtain ⟨hfirst, hrest⟩ := List.forall_mem_cons.mp h
    rcases hfirst with ⟨b, hb⟩ | ⟨e, he, hq⟩
    · have hlater : ∃ a ∈ inputs, ∃ e, f a = .error e := by
        obtain ⟨c, hc, e, he⟩ := failing
        rcases List.mem_cons.mp hc with rfl | hc
        · rw [hb] at he
          cases he
        · exact ⟨c, hc, e, he⟩
      obtain ⟨e, he, hq⟩ := ih hrest hlater
      exact ⟨e, by simp [List.mapM_cons, hb, he, bind, Except.bind], hq⟩
    · exact ⟨e, by simp [List.mapM_cons, he, bind, Except.bind], hq⟩

namespace Json.Decoder

theorem integer_within {low high z : Int} {v : Json} (h : integer low high v = .ok z) : low ≤ z ∧ z ≤ high := by
  unfold integer at h
  split at h
  next =>
    split at h
    next => cases h
    next =>
      split at h
      next hin =>
        cases h
        exact hin
      next => cases h
    next => cases h
  next => cases h

theorem instant_shown {t : Int} {v : Json} (h : instant v = .ok t) : Instant.Shown t := integer_within h

theorem of_required {α : Type} {found : List (String × Json)} {name : String} {d : Decoder α} {a : α}
    (h : required found name d = .ok a) : ∃ v, d v = .ok a := by
  unfold required at h
  split at h
  next v _ => exact ⟨v, h⟩
  next => cases h

end Json.Decoder

open Json in
theorem Http.QueryCall.shown {v : Json} {q : QueryCall} (h : QueryCall.ofJson v = .ok q) :
    Instant.Shown q.start ∧ Instant.Shown q.stop ∧ Instant.Shown q.step := by
  obtain ⟨found, -, h⟩ := exists_of_bind h
  obtain ⟨start, hstart, h⟩ := exists_of_bind h
  obtain ⟨stop, hstop, h⟩ := exists_of_bind h
  obtain ⟨step, hstep, h⟩ := exists_of_bind h
  obtain ⟨expressions, -, h⟩ := exists_of_bind h
  cases h
  obtain ⟨_, hstart⟩ := Decoder.of_required hstart
  obtain ⟨_, hstop⟩ := Decoder.of_required hstop
  obtain ⟨_, hstep⟩ := Decoder.of_required hstep
  exact ⟨Decoder.instant_shown hstart, Decoder.instant_shown hstop, Decoder.instant_shown hstep⟩

end SeriesStream
