namespace SeriesStream

/-! Instants and durations are integers of milliseconds; a clock shows those of 64 signed bits. -/

namespace Instant

def earliest : Int := -9223372036854775808

def latest : Int := 9223372036854775807

/-- The instants a clock can show. -/
def Shown (t : Int) : Prop := earliest ≤ t ∧ t ≤ latest

instance (t : Int) : Decidable (Shown t) := inferInstanceAs (Decidable (_ ∧ _))

/-- The instant itself, unless no clock shows it. -/
def shown? (t : Int) : Option Int := if Shown t then some t else none

theorem shown?_eq_some_iff {t u : Int} : shown? t = some u ↔ Shown t ∧ t = u := by
  unfold shown?
  split <;> simp_all

theorem shown?_eq_none_iff {t : Int} : shown? t = none ↔ t < earliest ∨ latest < t := by
  unfold shown?
  split
  next h => simp only [reduceCtorEq, false_iff]; unfold Shown at h; omega
  next h => simp only [true_iff]; unfold Shown at h; omega

/-- The greatest multiple of `step` at or before `t`, whatever the sign of `step`. -/
def floor (t step : Int) : Int := t - t % step

end Instant

end SeriesStream
