import SeriesStream.Json.Numeral

namespace SeriesStream.Json

/-- No numeral before this text could go on into it. -/
def Stops (s : List Glyph) : Prop :=
  ∀ c rest, s = some c :: rest → c.isDigit = false ∧ c ≠ '.' ∧ c ≠ 'e' ∧ c ≠ 'E'

theorem stops_nil : Stops [] := by
  intro c rest h
  cases h

namespace Numeral

/-- Digits stand where a numeral has digits, and no zero in front of others. -/
structure WellFormed (n : Numeral) : Prop where
  whole : ∀ c ∈ n.whole, c.isDigit = true
  someWhole : n.whole ≠ []
  noLead : n.whole.head? = some '0' → n.whole.length = 1
  fraction : ∀ c ∈ n.fraction, c.isDigit = true
  exponent : ∀ sign ds, n.exponent = some (sign, ds) → ds ≠ [] ∧ ∀ c ∈ ds, c.isDigit = true

theorem digits_append {ds : List Char} {rest : List Glyph} (h : ∀ c ∈ ds, c.isDigit = true)
    (stop : ∀ c tail, rest = some c :: tail → c.isDigit = false) : digits (ds.map some ++ rest) = (ds, rest) := by
  induction ds with
  | nil =>
    match rest with
    | [] => rfl
    | none :: _ => rfl
    | some c :: tail => simp [digits, stop c tail rfl]
  | cons d ds ih =>
    obtain ⟨hd, hds⟩ := List.forall_mem_cons.mp h
    simp [digits, hd, ih hds]

/-- The exponent as it stands behind the digits. -/
def exponentText : Option (Option Bool × List Char) → List Char
  | none => []
  | some (none, ds) => 'e' :: ds
  | some (some true, ds) => 'e' :: '-' :: ds
  | some (some false, ds) => 'e' :: '+' :: ds

theorem render_eq (n : Numeral) : n.render = (if n.negative then ['-'] else []) ++ (n.whole ++
    ((if n.fraction.isEmpty then [] else '.' :: n.fraction) ++ exponentText n.exponent)) := by
  obtain ⟨negative, whole, fraction, exponent⟩ := n
  rcases exponent with - | ⟨- | - | -, ds⟩ <;> simp [render, exponentText]

theorem scanTail_append {n : Numeral} (h : n.WellFormed) {rest : List Glyph} (stop : Stops rest) :
    scanTail { n with exponent := none } ((exponentText n.exponent).map some ++ rest) = some (n, rest) := by
  obtain ⟨negative, whole, fraction, exponent⟩ := n
  cases exponent with
  | none =>
    show scanTail _ rest = _
    unfold scanTail
    split
    next tail => exact absurd rfl (stop _ _ rfl).2.2.1
    next tail => exact absurd rfl (stop _ _ rfl).2.2.2
    next => rfl
  | some e =>
    obtain ⟨sign, ds⟩ := e
    obtain ⟨hsome, hdigit⟩ := h.exponent sign ds rfl
    have hdigits := digits_append hdigit fun c tail hc => (stop c tail hc).1
    obtain ⟨d, ds, rfl⟩ := List.exists_cons_of_ne_nil hsome
    have hminus : d ≠ '-' := by
      rintro rfl
      simpa using hdigit '-'
    have hplus : d ≠ '+' := by
      rintro rfl
      simpa using hdigit '+'
    simp only [List.map_cons, List.cons_append] at hdigits
    cases sign with
    | none => simp [exponentText, scanTail, scanExponent, hminus, hplus, hdigits]
    | some down => cases down <;> simp [exponentText, scanTail, scanExponent, hdigits]

theorem exponent_stops (e : Option (Option Bool × List Char)) {rest : List Glyph} (stop : Stops rest) (c : Char)
    (tail : List Glyph) (h : (exponentText e).map some ++ rest = some c :: tail) : c.isDigit = false ∧ c ≠ '.' := by
  cases e with
  | none => exact ⟨(stop c tail h).1, (stop c tail h).2.1⟩
  | some e =>
    obtain ⟨sign, ds⟩ := e
    obtain rfl : c = 'e' := by
      cases sign with
      | none => simpa using (List.cons.inj h).1.symm
      | some down => cases down <;> simpa using (List.cons.inj h).1.symm
    exact ⟨rfl, by decide⟩

/-- What is read behind the digits in front, where a point may stand. -/
def scanPoint (n : Numeral) (s : List Glyph) : Option (Numeral × List Glyph) :=
  match s with
  | some '.' :: rest =>
    match digits rest with
    | ([], _) => none
    | (fraction, rest) => scanTail { n with fraction } rest
  | _ => scanTail n s

theorem scan_whole {n : Numeral} (h : n.WellFormed) {s : List Glyph}
    (stop : ∀ c tail, s = some c :: tail → c.isDigit = false) :
    scan ((if n.negative then [some '-'] else []) ++ (n.whole.map some ++ s)) =
      scanPoint ⟨n.negative, n.whole, [], none⟩ s := by
  have hwhole := digits_append h.whole stop
  obtain ⟨d, ds, hd⟩ := List.exists_cons_of_ne_nil h.someWhole
  have hminus : d ≠ '-' := by
    rintro rfl
    simpa using h.whole '-' (by simp [hd])
  have hlead : ¬(d = '0' ∧ ¬ds = []) := by
    rintro ⟨rfl, hmore⟩
    have hone := h.noLead (by simp [hd])
    simp [hd, hmore] at hone
  rw [hd, List.map_cons, List.cons_append] at hwhole ⊢
  cases n.negative with
  | true =>
    simp [scan, hwhole, hlead]
    rfl
  | false =>
    simp [scan, hminus, hwhole, hlead]
    rfl

/-- A numeral is read back up to where it ends. -/
theorem scan_append {n : Numeral} (h : n.WellFormed) {rest : List Glyph} (stop : Stops rest) :
    scan (n.render.map some ++ rest) = some (n, rest) := by
  have htail := scanTail_append h stop
  have hstop := exponent_stops n.exponent stop
  have htext : n.render.map some ++ rest = (if n.negative then [some '-'] else []) ++ (n.whole.map some ++
      ((if n.fraction.isEmpty then [] else '.' :: n.fraction).map some ++
        ((exponentText n.exponent).map some ++ rest))) := by
    rw [render_eq]
    cases n.negative <;> simp
  rw [htext]
  generalize (exponentText n.exponent).map some ++ rest = behind at htail hstop
  have hfraction := digits_append h.fraction fun c tail hc => (hstop c tail hc).1
  obtain ⟨negative, whole, fraction, exponent⟩ := n
  cases fraction with
  | nil =>
    refine (scan_whole h fun c tail hc => (hstop c tail hc).1).trans ?_
    unfold scanPoint
    split
    next tail => exact absurd rfl (hstop '.' tail rfl).2
    next => exact htail
  | cons f fs =>
    refine (scan_whole h ?_).trans ?_
    · rintro c tail hc
      obtain rfl : '.' = c := by simpa using (List.cons.inj hc).1
      rfl
    · rw [List.map_cons, List.cons_append] at hfraction
      simpa [scanPoint, hfraction] using htail

theorem isDigit_toDigits {n : Nat} : ∀ c ∈ Nat.toDigits 10 n, c.isDigit = true :=
  fun _ hc => Nat.isDigit_of_mem_toDigits (by omega) (by omega) hc

theorem toDigits_no_lead (n : Nat) (h : (Nat.toDigits 10 n).head? = some '0') : n = 0 := by
  rw [Nat.toDigits_eq_if (by omega)] at h
  split at h
  next hsmall =>
    simp only [List.head?_cons, Option.some.injEq] at h
    exact Nat.digitChar_eq_zero.mp h
  next hlarge =>
    obtain ⟨d, ds, hds⟩ := List.exists_cons_of_ne_nil (Nat.toDigits_ne_nil (n := n / 10) (b := 10))
    rw [hds, List.cons_append] at h
    have := toDigits_no_lead (n / 10) (by rw [hds]; exact h)
    omega
termination_by n
decreasing_by omega

theorem wellFormed_ofInt (n : Int) : (ofInt n).WellFormed where
  whole := isDigit_toDigits
  someWhole := Nat.toDigits_ne_nil
  noLead h := by
    have hzero := toDigits_no_lead _ h
    simp only [ofInt, hzero]
    rfl
  fraction := by simp [ofInt]
  exponent := by simp [ofInt]

theorem wellFormed_ofFloat (x : Float) : (ofFloat x).WellFormed := by
  have hzeros (k : Nat) : ∀ c ∈ List.replicate k '0', c.isDigit = true := by
    intro c hc
    rw [(List.mem_replicate.mp hc).2]
    rfl
  have hzero : ∀ c ∈ ['0'], c.isDigit = true := by simp
  unfold ofFloat
  simp only
  generalize Decimal.ofFloat x = d
  have hdigit : ∀ c ∈ Nat.toDigits 10 d.digits, c.isDigit = true := isDigit_toDigits
  have hsome : 0 < (Nat.toDigits 10 d.digits).length := Nat.length_toDigits_pos
  have hlead : (Nat.toDigits 10 d.digits).head? = some '0' → d.digits = 0 := toDigits_no_lead d.digits
  generalize Nat.toDigits 10 d.digits = digits at hdigit hsome hlead ⊢
  split
  next => exact ⟨hzero, by simp, by simp, hzero, by simp⟩
  next hpositive =>
    obtain ⟨c, cs, rfl⟩ := List.exists_cons_of_ne_nil (List.ne_nil_of_length_pos hsome)
    have hc : c ≠ '0' := by
      rintro rfl
      exact hpositive (hlead rfl)
    split
    next =>
      split
      next =>
        refine ⟨hzero, by simp, by simp, fun e he => ?_, by simp⟩
        rcases List.mem_append.mp he with he | he
        · exact hzeros _ e he
        · exact hdigit e he
      next hpoint =>
        split
        next =>
          -- the point is behind the first digit at least
          obtain ⟨k, hk⟩ : ∃ k : Nat, ((((c :: cs).length : Nat) : Int) + d.exponent).toNat = k + 1 :=
            ⟨(((c :: cs).length : Int) + d.exponent).toNat - 1, by omega⟩
          rw [hk]
          refine ⟨fun e he => hdigit e (List.mem_of_mem_take he), by simp, ?_, ?_, by simp⟩
          · intro hfirst
            exact absurd (Option.some.inj hfirst) hc
          · exact fun e he => hdigit e (List.mem_of_mem_drop he)
        next =>
          refine ⟨fun e he => ?_, by simp, fun hfirst => ?_, hzero, by simp⟩
          · rcases List.mem_append.mp he with he | he
            · exact hdigit e he
            · exact hzeros _ e he
          · exact absurd (Option.some.inj hfirst) hc
    next =>
      refine ⟨?_, by simp, fun _ => rfl, fun e he => hdigit e (List.mem_of_mem_drop he), ?_⟩
      · exact fun e he => hdigit e (List.mem_of_mem_take he)
      · rintro sign ds heq
        obtain ⟨-, rfl⟩ := Prod.mk.inj (Option.some.inj heq)
        exact ⟨Nat.toDigits_ne_nil, isDigit_toDigits⟩

theorem digitsValue_toDigits (n : Nat) : digitsValue (Nat.toDigits 10 n) = n := by
  have hvalue : Nat.ofDigitChars 10 (Nat.toDigits 10 n) 0 = n := Nat.ofDigitChars_ten_toDigits
  rw [Nat.ofDigitChars_eq_foldl] at hvalue
  refine Eq.trans ?_ hvalue
  unfold digitsValue
  congr 1
  funext sofar c
  show sofar * 10 + (c.toNat - 48) = 10 * sofar + (c.toNat - 48)
  omega

/-- An integer that 64 bits can hold is read back. -/
theorem value_ofInt {n : Int} (low : -9223372036854775808 ≤ n) (high : n ≤ 18446744073709551615) :
    (ofInt n).value? = some (.integer n) := by
  simp only [value?, ofInt, digitsValue_toDigits, significandMax, List.isEmpty_nil, Option.isNone_none, true_and]
  rw [if_pos (by omega)]
  by_cases hneg : n < 0
  · rw [if_pos (by simpa using hneg), if_pos (by omega)]
    congr 2
    omega
  · rw [if_neg (by simpa using hneg)]
    congr 2
    omega

end Numeral

end SeriesStream.Json
