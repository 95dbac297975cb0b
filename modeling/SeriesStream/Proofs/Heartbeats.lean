import SeriesStream.Proofs.Progress

namespace SeriesStream

/-- The times of beats of which the first one is due at `due`. Each of the others is due an interval after
the one before it was due, or after it was there if that one was late. -/
inductive Beats (interval : Nat) : Nat → List Nat → Prop
  | nil (due : Nat) : Beats interval due []
  | near {due t : Nat} {ts : List Nat} (reached : due ≤ t) (near : t ≤ due + Execution.tolerance)
      (rest : Beats interval (due + interval) ts) : Beats interval due (t :: ts)
  | late {due t : Nat} {ts : List Nat} (late : due + Execution.tolerance < t)
      (rest : Beats interval (t + interval) ts) : Beats interval due (t :: ts)

namespace Beats

variable {interval due : Nat} {ts : List Nat}

theorem reached (h : Beats interval due ts) {n t : Nat} (ht : ts[n]? = some t) : due + n * interval ≤ t := by
  induction h generalizing n with
  | nil => simp at ht
  | near hreached _ _ ih =>
    cases n with
    | zero =>
      obtain rfl := Option.some.inj ht
      omega
    | succ n =>
      have := ih ht
      rw [Nat.succ_mul]
      omega
  | late hlate _ ih =>
    cases n with
    | zero =>
      obtain rfl := Option.some.inj ht
      omega
    | succ n =>
      have := ih ht
      rw [Nat.succ_mul]
      omega

/-- Two beats are as far apart as their intervals, or closer by what the first one may be late. -/
theorem apart (h : Beats interval due ts) {i n t t' : Nat} (ht : ts[i]? = some t) (ht' : ts[i + n]? = some t') :
    t + n * interval ≤ t' + Execution.tolerance := by
  induction h generalizing i with
  | nil => simp at ht
  | @near due first ts hreached hnear rest ih =>
    cases i with
    | zero =>
      obtain rfl := Option.some.inj ht
      have := (Beats.near hreached hnear rest).reached (n := n) (by simpa using ht')
      omega
    | succ i => exact ih ht (by simpa [Nat.succ_add] using ht')
  | @late due first ts hlate rest ih =>
    cases i with
    | zero =>
      obtain rfl := Option.some.inj ht
      cases n with
      | zero =>
        obtain rfl := Option.some.inj ht'
        omega
      | succ n =>
        have := rest.reached (n := n) (by simpa using ht')
        rw [Nat.succ_mul]
        omega
    | succ i => exact ih ht (by simpa [Nat.succ_add] using ht')

/-- Within `limit` there is a beat at the start and at most one for each interval. -/
theorem length_le (h : Beats interval 0 ts) (pos : 0 < interval) {limit : Nat}
    (within : ∀ t ∈ ts, t ≤ limit) : ts.length ≤ limit / interval + 1 := by
  rcases Nat.eq_zero_or_pos ts.length with hempty | hfull
  · exact hempty ▸ Nat.zero_le _
  · obtain ⟨last, hlast⟩ : ∃ last, ts[ts.length - 1]? = some last :=
      ⟨_, List.getElem?_eq_getElem (by omega)⟩
    have hreached := h.reached hlast
    have hwithin := within last (List.mem_of_getElem? hlast)
    have := (Nat.le_div_iff_mul_le pos).mpr (show (ts.length - 1) * interval ≤ limit by omega)
    omega

end Beats

/-- The times at which the consumer was told a heartbeat. -/
def Watch.beats (w : Watch) : List Nat := (w.told.filter (·.2.any StreamEvent.isInfo)).map (·.1)

namespace Execution

variable {x y : Execution}

/-- When the next beat is due after one that comes at `t`. -/
def dueAfter (x : Execution) (t : Nat) : Nat :=
  (if x.nextBeat + tolerance < t then t else x.nextBeat) + x.options.heartbeat

/-- A beat never comes early, and nothing but a beat puts off the next one. -/
theorem nextBeat_of_turn {t : Turn} (sound : x.pipeline.Sound) (h : x.turn = .ok (t, y)) :
    match t with
    | .event (.info _) => x.nextBeat ≤ y.now ∧ y.nextBeat = x.dueAfter y.now
    | _ => y.nextBeat = x.nextBeat := by
  have hcases := turn_cases sound
  rw [h] at hcases
  cases hcases with
  | ended => rfl
  | closed => rfl
  | beat _ _ reached _ result =>
    obtain ⟨rfl, rfl⟩ := Prod.mk.inj result
    exact ⟨reached, rfl⟩
  | handed _ _ _ reacted => cases reacted <;> rfl

theorem Silently.nextBeat (h : Silently x y) (sound : x.Sound) : y.nextBeat = x.nextBeat := by
  induction h with
  | refl => rfl
  | turn first _ ih =>
    rw [ih (advances_of_turn sound first).sound]
    exact nextBeat_of_turn sound.pipeline first

theorem options_of_pull {e : Option StreamEvent} (sound : x.Sound) (h : x.pull = .ok (e, y)) :
    y.options = x.options := by
  have hcases := pull_cases sound
  rw [h] at hcases
  cases hcases with
  | past => rfl
  | event quiet turn =>
    have hturn := options_of_turn (quiet.advances sound).sound turn
    exact hturn.trans (quiet.options sound)
  | ended quiet _ => exact quiet.options sound

theorem nextBeat_of_pull {e : Option StreamEvent} (sound : x.Sound) (h : x.pull = .ok (e, y)) :
    match e with
    | some (.info _) => x.nextBeat ≤ y.now ∧ y.nextBeat = x.dueAfter y.now
    | _ => y.nextBeat = x.nextBeat := by
  have hcases := pull_cases sound
  rw [h] at hcases
  cases hcases with
  | past => rfl
  | @event v z e quiet turn =>
    have hturn := nextBeat_of_turn (quiet.advances sound).sound.pipeline turn
    have hbeat := quiet.nextBeat sound
    cases e with
    | info =>
      simp only [dueAfter, hbeat, quiet.options sound] at hturn
      exact hturn
    | data => exact hturn.trans hbeat
    | error => exact hturn.trans hbeat
    | close => exact hturn.trans hbeat
  | ended quiet _ => exact quiet.nextBeat sound

/-- Whatever the consumer does, the beats it is told keep their schedule. -/
theorem beats_of_follow (sound : x.Sound) (steps : List ConsumerStep) :
    Beats x.options.heartbeat x.nextBeat (x.follow steps).beats := by
  induction steps generalizing x with
  | nil => exact .nil _
  | cons step steps ih =>
    cases step with
    | sleep d => exact ih (advances_sleep sound d).sound
    | pull =>
      cases hp : x.pull with
      | error fault => simpa [follow, hp, Watch.beats] using Beats.nil x.nextBeat
      | ok result =>
        obtain ⟨e, y⟩ := result
        have hrest := ih (advances_of_pull sound hp).sound
        have hbeat := nextBeat_of_pull sound hp
        rw [options_of_pull sound hp] at hrest
        cases e with
        | none => simpa [follow, hp, Watch.beats, ← hbeat] using hrest
        | some e =>
          cases e with
          | data | error | close =>
            simpa [follow, hp, Watch.beats, StreamEvent.isInfo, ← hbeat] using hrest
          | info =>
            obtain ⟨reached, hnext⟩ := hbeat
            have htold : (x.follow (.pull :: steps)).beats = y.now :: (y.follow steps).beats := by
              simp only [follow, hp]
              rfl
            rw [htold]
            by_cases late : x.nextBeat + tolerance < y.now
            · exact .late late (by simpa [hnext, dueAfter, late] using hrest)
            · exact .near reached (Nat.not_lt.mp late) (by simpa [hnext, dueAfter, late] using hrest)

end Execution

/-- The first beat is due at once. The beats keep their schedule, whatever the consumer does, so that two of
them are never closer than their intervals by more than what a beat may be late without shifting the next. -/
theorem beats_keep_their_distance {plan : Plan} {backend : Backend} {options : StreamOptions}
    {lead : Nat → Lead} {x : Execution} (hx : execute plan backend options lead = .ok (.ok x))
    (steps : List ConsumerStep) :
    Beats options.heartbeat 0 (x.follow steps).beats ∧
    ∀ i n t t', (x.follow steps).beats[i]? = some t → (x.follow steps).beats[i + n]? = some t' →
      t + n * options.heartbeat ≤ t' + Execution.tolerance := by
  obtain ⟨_, cut, beating, rfl⟩ := begun_of_execute hx
  have hbeats := Execution.beats_of_follow (started_begun backend lead cut beating).sound steps
  exact ⟨hbeats, fun _ _ _ _ => hbeats.apart⟩

/-- A backend that never answers. -/
def Backend.silent : Backend := fun _ _ => ⟨none, .crashed ""⟩

theorem sample_beats_keep_their_distance :
    ∃ x, execute .sample .silent .fine (fun _ => .heartbeat) = .ok (.ok x) ∧
      ∀ steps, ∀ i n t t' : Nat, (x.follow steps).beats[i]? = some t →
        (x.follow steps).beats[i + n]? = some t' → t + n * 10 ≤ t' + 5 := by
  obtain ⟨x, hx⟩ : ∃ x, execute .sample .silent .fine (fun _ => .heartbeat) = .ok (.ok x) := ⟨_, rfl⟩
  exact ⟨x, hx, fun steps => (beats_keep_their_distance hx steps).2⟩

/-- A beat that comes three milliseconds late does not shift the next one, so that these two are closer than
an interval. -/
theorem beat_follows_a_late_one_too_soon :
    ∃ x, execute .sample .silent { StreamOptions.fine with heartbeat := 20 } (fun _ => .heartbeat) =
        .ok (.ok x) ∧
      (x.follow [.pull, .sleep 23, .pull, .pull]).beats = [0, 23, 40] ∧
      ¬ ∀ (i t t' : Nat), (x.follow [.pull, .sleep 23, .pull, .pull]).beats[i]? = some t →
        (x.follow [.pull, .sleep 23, .pull, .pull]).beats[i + 1]? = some t' → t + 20 ≤ t' := by
  obtain ⟨x, hx, hbeats⟩ : ∃ x,
      execute .sample .silent { StreamOptions.fine with heartbeat := 20 } (fun _ => .heartbeat) =
        .ok (.ok x) ∧
      (x.follow [.pull, .sleep 23, .pull, .pull]).beats = [0, 23, 40] := ⟨_, rfl, rfl⟩
  refine ⟨x, hx, hbeats, fun apart => ?_⟩
  rw [hbeats] at apart
  exact absurd (apart 1 23 40 rfl rfl) (by decide)

end SeriesStream
