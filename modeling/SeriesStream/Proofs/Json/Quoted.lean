import SeriesStream.Json.Reader
import SeriesStream.Proofs.Glyph

namespace SeriesStream.Json

theorem scanQuoted_no_hex {a b c d : Glyph} (h : hex4? a b c d = none) (s : List Glyph) :
    scanQuoted (some '\\' :: some 'u' :: a :: b :: c :: d :: s) = none := by
  rw [scanQuoted.eq_def]
  split
  next heq => simp at heq
  next heq =>
    simp only [List.cons.injEq, true_and] at heq
    obtain ⟨rfl, rfl, rfl, rfl, rfl⟩ := heq
    simp [h]
  next heq =>
    simp only [List.cons.injEq, true_and] at heq
    obtain ⟨rfl, rfl, rfl, rfl, rfl⟩ := heq
    simp [h]
  next hsingle heq =>
    simp only [List.cons.injEq, Option.some.injEq, true_and] at heq
    obtain ⟨rfl, rfl⟩ := heq
    exact absurd rfl (hsingle _ _ _ _ _ rfl)
  next hslash heq =>
    simp only [List.cons.injEq, Option.some.injEq] at heq
    obtain ⟨rfl, rfl⟩ := heq
    exact absurd rfl (hslash _ _ rfl)
  next heq => simp at heq
  next heq => simp at heq

/-- An escape in hexadecimal that is no half of a character stands for its own, whatever comes behind it. -/
theorem scanQuoted_hex {a b c d : Glyph} {n : Nat} (h : hex4? a b c d = some n) (low : n < 0xD800)
    (s : List Glyph) : scanQuoted (some '\\' :: some 'u' :: a :: b :: c :: d :: s) =
      (scanQuoted s).map fun (q, rest) => (⟨some (Char.ofNat n) :: q.content, false⟩, rest) := by
  have hvalid : n.isValidChar := Or.inl (by omega)
  have hhigh : isHighSurrogate n = false := by
    simp [isHighSurrogate]
    omega
  rw [scanQuoted.eq_def]
  split
  next heq => simp at heq
  next e f g k tail heq =>
    simp only [List.cons.injEq, true_and] at heq
    obtain ⟨rfl, rfl, rfl, rfl, rfl⟩ := heq
    rw [h]
    cases hlow : hex4? e f g k with
    | some other => simp [hhigh, hvalid]
    | none => rw [scanQuoted_no_hex hlow, Option.map_none]
  next heq =>
    simp only [List.cons.injEq, true_and] at heq
    obtain ⟨rfl, rfl, rfl, rfl, rfl⟩ := heq
    simp [h, hvalid]
  next hsingle heq =>
    simp only [List.cons.injEq, Option.some.injEq, true_and] at heq
    obtain ⟨rfl, rfl⟩ := heq
    exact absurd rfl (hsingle _ _ _ _ _ rfl)
  next hslash heq =>
    simp only [List.cons.injEq, Option.some.injEq] at heq
    obtain ⟨rfl, rfl⟩ := heq
    exact absurd rfl (hslash _ _ rfl)
  next heq => simp at heq
  next heq => simp at heq

theorem scanQuoted_letter {c d : Char} (h : unescape? c = some d) (hu : c ≠ 'u') (s : List Glyph) :
    scanQuoted (some '\\' :: some c :: s) =
      (scanQuoted s).map fun (q, rest) => (⟨some d :: q.content, false⟩, rest) := by
  rw [scanQuoted.eq_def]
  simp [h, hu]

theorem scanQuoted_plain {c : Char} (hquote : c ≠ '"') (hslash : c ≠ '\\') (hcontrol : ¬c.toNat < 0x20)
    (s : List Glyph) : scanQuoted (some c :: s) =
      (scanQuoted s).map fun (q, rest) => (⟨some c :: q.content, q.plain⟩, rest) := by
  rw [scanQuoted.eq_def]
  simp [hslash, hcontrol]

theorem hex4_of_control {n : Nat} (h : n < 0x20) :
    hex4? (some '0') (some '0') (some (Nat.digitChar (n / 16))) (some (Nat.digitChar (n % 16))) = some n := by
  have hall : ∀ n < 0x20, hex4? (some '0') (some '0') (some (Nat.digitChar (n / 16)))
      (some (Nat.digitChar (n % 16))) = some n := by decide
  exact hall n h

/-- A character is read as it was written, in front of what comes behind it. -/
theorem scanQuoted_char (c : Char) (s : List Glyph) :
    scanQuoted (((escape? c).getD [c]).map some ++ s) =
      (scanQuoted s).map fun (q, rest) => (⟨some c :: q.content, (escape? c).isNone && q.plain⟩, rest) := by
  by_cases hquote : c = '"'
  · subst hquote
    exact scanQuoted_letter (c := '"') rfl (by decide) s
  by_cases hslash : c = '\\'
  · subst hslash
    exact scanQuoted_letter (c := '\\') rfl (by decide) s
  by_cases hcontrol : c.toNat < 0x20
  · have hsame {d : Char} (hd : d.toNat = c.toNat) : d = c := Char.toNat_inj.mp hd
    unfold escape?
    rw [if_neg hquote, if_neg hslash, if_pos hcontrol]
    split
    next h => exact scanQuoted_letter (c := 'b') (congrArg some (hsame h.symm)) (by decide) s
    next h => exact scanQuoted_letter (c := 't') (congrArg some (hsame h.symm)) (by decide) s
    next h => exact scanQuoted_letter (c := 'n') (congrArg some (hsame h.symm)) (by decide) s
    next h => exact scanQuoted_letter (c := 'f') (congrArg some (hsame h.symm)) (by decide) s
    next h => exact scanQuoted_letter (c := 'r') (congrArg some (hsame h.symm)) (by decide) s
    next =>
      have hhex := scanQuoted_hex (hex4_of_control hcontrol) (by omega) s
      rw [Char.ofNat_toNat] at hhex
      exact hhex
  · have hescape : escape? c = none := by simp [escape?, hquote, hslash, hcontrol]
    rw [hescape]
    exact scanQuoted_plain hquote hslash hcontrol s

namespace Quoted

theorem string?_ofString (s : String) : (ofString s).string? = some s := by
  rw [string?, ofString, Glyph.text?_map_some, String.ofList_toList]

/-- A text is read as it was written, up to its closing quote. -/
theorem scanQuoted_ofString (s : String) (rest : List Glyph) :
    ∃ body, (ofString s).render.map some = some '"' :: body ∧
      scanQuoted (body ++ rest) = some (ofString s, rest) := by
  have hchars (chars : List Char) : scanQuoted ((chars.flatMap fun c => (escape? c).getD [c]).map some ++
      some '"' :: rest) = some (⟨chars.map some, chars.all fun c => (escape? c).isNone⟩, rest) := by
    induction chars with
    | nil => rw [List.flatMap_nil, List.map_nil, List.nil_append, scanQuoted.eq_def]; rfl
    | cons c chars ih =>
      rw [List.flatMap_cons, List.map_append, List.append_assoc, scanQuoted_char, ih]
      rfl
  refine ⟨(s.toList.flatMap fun c => (escape? c).getD [c]).map some ++ [some '"'], ?_, ?_⟩
  · simp [render, ofString, List.flatMap_map]
  · rw [List.append_assoc]
    exact hchars s.toList

end Quoted

end SeriesStream.Json
