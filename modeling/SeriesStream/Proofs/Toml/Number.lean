import Mathlib.Data.List.Basic
import SeriesStream.Proofs.Json.Numeral
import SeriesStream.Toml.Reader

namespace SeriesStream.Toml

/-- Characters of different kinds are different. -/
theorem ne_of_kind {kind : Char → Bool} {c d : Char} (hc : kind c = true) (hd : kind d = false) : c ≠ d := by
  rintro rfl
  rw [hc] at hd
  cases hd

theorem digitsValue_eq {ds : List Char} (h : ∀ c ∈ ds, c.isDigit = true) :
    digitsValue 10 ds = Json.Numeral.digitsValue ds := by
  refine List.foldl_ext _ _ 0 fun n c hc => ?_
  rw [digitValue, if_pos (h c hc)]

theorem digitsValue_toDigits (n : Nat) : digitsValue 10 (Nat.toDigits 10 n) = n := by
  rw [digitsValue_eq Json.Numeral.isDigit_toDigits]
  exact Json.Numeral.digitsValue_toDigits n

/-- The digits of a whole number, with a zero in front only if it is the number. -/
structure WholeDigits (ds : List Char) : Prop where
  digits : ∀ c ∈ ds, c.isDigit = true
  filled : ds ≠ []
  lead : ds.head? = some '0' → ds = ['0']

theorem wholeDigits_toDigits (n : Nat) : WholeDigits (Nat.toDigits 10 n) where
  digits := Json.Numeral.isDigit_toDigits
  filled := Nat.toDigits_ne_nil
  lead h := by
    rw [Json.Numeral.toDigits_no_lead n h]
    rfl

/-! Digits up to the end of their line. -/

section

variable {ds : List Char} (rest : List Char)

theorem moreDigits_line (digits : ∀ c ∈ ds, c.isDigit = true) :
    moreDigits Char.isDigit (ds ++ '\n' :: rest) = (ds, '\n' :: rest) := by
  induction ds with
  | nil => simp [moreDigits]
  | cons d ds ih =>
    obtain ⟨hd, hds⟩ := List.forall_mem_cons.mp digits
    have hne : d ≠ '_' := ne_of_kind hd (by decide)
    rw [List.cons_append, moreDigits.eq_def]
    simp [hd, hne, ih hds]

theorem wholeDigits?_line (h : WholeDigits ds) : wholeDigits? (ds ++ '\n' :: rest) = some (ds, '\n' :: rest) := by
  obtain ⟨d, ds, rfl⟩ := List.exists_cons_of_ne_nil h.filled
  by_cases hzero : d = '0'
  · subst hzero
    rw [h.lead rfl]
    rfl
  · obtain ⟨hd, hds⟩ := List.forall_mem_cons.mp h.digits
    simp [wholeDigits?, hzero, digits?, hd, moreDigits_line rest hds]

/-- Nothing but a digit or the end of the line is in front. -/
theorem line_ne (digits : ∀ c ∈ ds, c.isDigit = true) {c : Char} (hdigit : c.isDigit = false) (hline : c ≠ '\n')
    (tail : List Char) : ds ++ '\n' :: rest ≠ c :: tail := by
  cases ds with
  | nil => exact fun heq => hline (List.cons.inj heq).1.symm
  | cons d ds => exact fun heq => ne_of_kind (digits d List.mem_cons_self) hdigit (List.cons.inj heq).1

theorem behind?_line (digits : ∀ c ∈ ds, c.isDigit = true) {c : Char} (hdigit : c.isDigit = false) (hline : c ≠ '\n') :
    behind? c (ds ++ '\n' :: rest) = none := by
  unfold behind?
  split
  next d tail heq =>
    refine if_neg ?_
    rintro rfl
    exact line_ne rest digits hdigit hline tail heq
  next => rfl

theorem twoDigits?_line (digits : ∀ c ∈ ds, c.isDigit = true) {low high n : Nat} {s : List Char}
    (h : twoDigits? low high (ds ++ '\n' :: rest) = some (n, s)) :
    ∃ after, (∀ c ∈ after, c.isDigit = true) ∧ s = after ++ '\n' :: rest := by
  match ds with
  | [] => cases rest <;> simp [twoDigits?] at h
  | [d] => simp [twoDigits?] at h
  | d :: e :: ds =>
    refine ⟨ds, fun c hc => digits c (List.mem_cons_of_mem d (List.mem_cons_of_mem e hc)), ?_⟩
    simp [twoDigits?] at h
    exact h.2.2.symm

theorem time?_line (digits : ∀ c ∈ ds, c.isDigit = true) : time? (ds ++ '\n' :: rest) = none := by
  unfold time?
  cases htwo : twoDigits? 0 23 (ds ++ '\n' :: rest) with
  | none => rfl
  | some p =>
    obtain ⟨after, hafter, heq⟩ := twoDigits?_line rest digits htwo
    have hcolon : behind? ':' p.2 = none := by
      rw [heq]
      exact behind?_line rest hafter (by decide) (by decide)
    simp [hcolon]

theorem date?_line (digits : ∀ c ∈ ds, c.isDigit = true) : date? (ds ++ '\n' :: rest) = none := by
  unfold date?
  split
  next a b c d s heq =>
    refine if_pos ?_
    intro hall
    have hline : (ds ++ '\n' :: rest).dropWhile Char.isDigit = '\n' :: rest := by
      rw [List.dropWhile_append_of_pos digits]
      rfl
    simp only [List.all_cons, List.all_nil, Bool.and_true, Bool.and_eq_true] at hall
    obtain ⟨ha, hb, hc, hd⟩ := hall
    rw [heq, List.dropWhile_cons_of_pos ha, List.dropWhile_cons_of_pos hb, List.dropWhile_cons_of_pos hc,
      List.dropWhile_cons_of_pos hd, List.dropWhile_cons_of_neg (by decide)] at hline
    cases hline
  next => rfl

theorem sign_line (digits : ∀ c ∈ ds, c.isDigit = true) :
    sign (ds ++ '\n' :: rest) = (false, ds ++ '\n' :: rest) := by
  unfold sign
  split
  next heq => exact absurd heq (line_ne rest digits (by decide) (by decide) _)
  next heq => exact absurd heq (line_ne rest digits (by decide) (by decide) _)
  next => rfl

theorem decimalFloat?_line (h : WholeDigits ds) : decimalFloat? (ds ++ '\n' :: rest) = none := by
  have hexponent : exponent? ('\n' :: rest) = none := rfl
  have hpoint : behind? '.' ('\n' :: rest) = none := rfl
  simp [decimalFloat?, sign_line rest h.digits, wholeDigits?_line rest h, hexponent, hpoint]

theorem wordFloat?_line (digits : ∀ c ∈ ds, c.isDigit = true) : wordFloat? (ds ++ '\n' :: rest) = none := by
  unfold wordFloat?
  rw [sign_line rest digits]
  split
  next heq => exact absurd heq (line_ne rest digits (by decide) (by decide) _)
  next heq => exact absurd heq (line_ne rest digits (by decide) (by decide) _)
  next => rfl

theorem integer?_line (h : WholeDigits ds) (high : (digitsValue 10 ds : Int) ≤ integerHigh) :
    integer? (ds ++ '\n' :: rest) = some ((digitsValue 10 ds : Int), '\n' :: rest) := by
  -- A zero is the only digit, so that no letter for a base follows it.
  have hbase (c : Char) (hc : c ≠ '\n') (tail : List Char) : ds ++ '\n' :: rest ≠ '0' :: c :: tail := by
    intro heq
    obtain ⟨d, ds, rfl⟩ := List.exists_cons_of_ne_nil h.filled
    rw [h.lead (by rw [(List.cons.inj heq).1]; rfl)] at heq
    exact hc (List.cons.inj (List.cons.inj heq).2).1.symm
  have hbounds : inBounds? (digitsValue 10 ds) = some (digitsValue 10 ds : Int) :=
    if_pos ⟨by unfold integerLow; omega, high⟩
  unfold integer?
  split
  next heq => exact absurd heq (hbase 'x' (by decide) _)
  next heq => exact absurd heq (hbase 'o' (by decide) _)
  next heq => exact absurd heq (hbase 'b' (by decide) _)
  next => simp [sign_line rest h.digits, wholeDigits?_line rest h, hbounds]

end

/-- A whole number that a document can hold is read as it was written, up to the end of its line. -/
theorem readNumber_toDigits {n : Nat} (high : (n : Int) ≤ integerHigh) (rest : List Char) :
    readNumber (Nat.toDigits 10 n ++ '\n' :: rest) = some (.integer n, '\n' :: rest) := by
  have hwhole := wholeDigits_toDigits n
  have hmoment : moment? (Nat.toDigits 10 n ++ '\n' :: rest) = none := by
    rw [moment?, date?_line rest hwhole.digits]
    exact time?_line rest hwhole.digits
  have hinteger := integer?_line rest hwhole (by rwa [digitsValue_toDigits])
  rw [digitsValue_toDigits] at hinteger
  simp [readNumber, hmoment, decimalFloat?_line rest hwhole, wordFloat?_line rest hwhole.digits, hinteger]

end SeriesStream.Toml
