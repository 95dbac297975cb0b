import SeriesStream.Proofs.Toml.Number
import SeriesStream.Toml.Quoted

namespace SeriesStream.Toml

/-! Characters with a meaning of their own in strings. -/

theorem ne_of_isPlain {c : Char} (h : isPlain c = true) : c ≠ '\n' ∧ c ≠ '\r' :=
  ⟨ne_of_kind h (by decide), ne_of_kind h (by decide)⟩

theorem ne_return {c : Char} (h : isPlain c = true ∨ c = '\n') : c ≠ '\r' := by
  rintro rfl
  exact absurd h (by decide)

/-- A letter behind a backslash neither numbers a character nor ends the line. -/
theorem ne_of_unescape {c x : Char} (h : unescape? c = some x) :
    c ≠ 'u' ∧ c ≠ 'U' ∧ isBlank c = false ∧ c ≠ '\n' ∧ c ≠ '\r' := by
  have hother {d : Char} (hd : unescape? d = none) : c ≠ d := by
    rintro rfl
    rw [h] at hd
    cases hd
  have hspace : c ≠ ' ' := hother rfl
  have htab : c ≠ '\t' := hother rfl
  exact ⟨hother rfl, hother rfl, by simp [isBlank, hspace, htab], hother rfl, hother rfl⟩

theorem endsLine_of_unescape {c x : Char} (h : unescape? c = some x) (s : List Char) : endsLine (c :: s) = false := by
  obtain ⟨-, -, hblank, hn, hr⟩ := ne_of_unescape h
  rw [endsLine, List.dropWhile_cons_of_neg (by simp [hblank]), newline?.eq_def]
  simp [hn, hr]

theorem numbered?_control {n : Nat} (h : n < 0x20 ∨ n = 0x7f) :
    numbered? ['0', '0', (Nat.digitChar (n / 16)).toUpper, (Nat.digitChar (n % 16)).toUpper] = some (Char.ofNat n) := by
  have hlow : ∀ n < 0x20, numbered? ['0', '0', (Nat.digitChar (n / 16)).toUpper, (Nat.digitChar (n % 16)).toUpper] =
      some (Char.ofNat n) := by decide
  rcases h with h | rfl
  · exact hlow n h
  · decide

/-- What stands for a character in a string with escapes: itself, a letter behind a backslash, or its number. -/
theorem escape_cases (c : Char) :
    (isPlain c = true ∧ c ≠ '\\' ∧ escape c = [c]) ∨
    (∃ letter, unescape? letter = some c ∧ escape c = ['\\', letter]) ∨
    (∃ a b, numbered? ['0', '0', a, b] = some c ∧ escape c = ['\\', 'u', '0', '0', a, b]) := by
  unfold escape
  split
  next => exact Or.inr (Or.inl ⟨'b', rfl, rfl⟩)
  next => exact Or.inr (Or.inl ⟨'t', rfl, rfl⟩)
  next => exact Or.inr (Or.inl ⟨'n', rfl, rfl⟩)
  next => exact Or.inr (Or.inl ⟨'f', rfl, rfl⟩)
  next => exact Or.inr (Or.inl ⟨'r', rfl, rfl⟩)
  next => exact Or.inr (Or.inl ⟨'\\', rfl, rfl⟩)
  next hslash =>
    split
    next hplain => exact Or.inl ⟨hplain, hslash, rfl⟩
    next hplain =>
      have hcontrol : c.toNat < 0x20 ∨ c.toNat = 0x7f := by
        simp [isPlain] at hplain
        omega
      refine Or.inr (Or.inr ⟨_, _, ?_, rfl⟩)
      rw [numbered?_control hcontrol, Char.ofNat_toNat]

theorem head_escape (c : Char) : ∃ d tail, escape c = d :: tail ∧ (d = c ∨ d = '\\') := by
  rcases escape_cases c with ⟨-, -, heq⟩ | ⟨letter, -, heq⟩ | ⟨a, b, -, heq⟩
  · exact ⟨c, [], heq, Or.inl rfl⟩
  · exact ⟨'\\', [letter], heq, Or.inr rfl⟩
  · exact ⟨'\\', ['u', '0', '0', a, b], heq, Or.inr rfl⟩

/-- A reader of plain characters and of both kinds of escapes reads whatever stands for a character. -/
theorem scan_escape {scan : List Char → Option (List Char × List Char)} {c : Char} {s : List Char}
    (plain : isPlain c = true → c ≠ '\\' → scan (c :: s) = (scan s).map fun p => (c :: p.1, p.2))
    (letter : ∀ {d}, unescape? d = some c → scan ('\\' :: d :: s) = (scan s).map fun p => (c :: p.1, p.2))
    (number : ∀ {a b}, numbered? ['0', '0', a, b] = some c →
      scan ('\\' :: 'u' :: '0' :: '0' :: a :: b :: s) = (scan s).map fun p => (c :: p.1, p.2)) :
    scan (escape c ++ s) = (scan s).map fun p => (c :: p.1, p.2) := by
  rcases escape_cases c with ⟨hplain, hslash, heq⟩ | ⟨d, hletter, heq⟩ | ⟨a, b, hnumber, heq⟩
  · rw [heq]
    exact plain hplain hslash
  · rw [heq]
    exact letter hletter
  · rw [heq]
    exact number hnumber

/-! Strings on one line with escapes. -/

theorem scanBasic_letter {c x : Char} (h : unescape? c = some x) (s : List Char) :
    scanBasic ('\\' :: c :: s) = (scanBasic s).map fun p => (x :: p.1, p.2) := by
  obtain ⟨hu, hU, -⟩ := ne_of_unescape h
  rw [scanBasic.eq_def]
  simp [h, hu, hU, Option.map_eq_bind, Function.comp_def]

theorem scanBasic_number {a b c d x : Char} (h : numbered? [a, b, c, d] = some x) (s : List Char) :
    scanBasic ('\\' :: 'u' :: a :: b :: c :: d :: s) = (scanBasic s).map fun p => (x :: p.1, p.2) := by
  rw [scanBasic.eq_def]
  simp [h, Option.map_eq_bind, Function.comp_def]

theorem scanBasic_plain {c : Char} (h : isPlain c = true) (hslash : c ≠ '\\') (hquote : c ≠ '"') (s : List Char) :
    scanBasic (c :: s) = (scanBasic s).map fun p => (c :: p.1, p.2) := by
  rw [scanBasic.eq_def]
  simp [h, hslash, Option.map_eq_bind, Function.comp_def]

theorem scanBasic_escape {c : Char} (hquote : c ≠ '"') (s : List Char) :
    scanBasic (escape c ++ s) = (scanBasic s).map fun p => (c :: p.1, p.2) :=
  scan_escape (fun hplain hslash => scanBasic_plain hplain hslash hquote s) (fun h => scanBasic_letter h s)
    fun h => scanBasic_number h s

theorem scanBasic_writeBasic (s rest : List Char) : scanBasic (writeBasic s ++ '"' :: rest) = some (s, rest) := by
  induction s with
  | nil =>
    rw [writeBasic, List.flatMap_nil, List.nil_append, scanBasic.eq_def]
    rfl
  | cons c s ih =>
    rw [writeBasic, List.flatMap_cons, ← writeBasic, List.append_assoc]
    by_cases hquote : c = '"'
    · rw [if_pos hquote]
      have hletter : unescape? '"' = some c := by rw [hquote]; rfl
      rw [List.cons_append, List.cons_append, List.nil_append, scanBasic_letter hletter, ih, Option.map_some]
    · rw [if_neg hquote, scanBasic_escape hquote, ih, Option.map_some]

/-- A reader that takes a quote as a part of the text unless two more follow takes up to two of them. -/
theorem scan_run {scan : List Char → Option (List Char × List Char)} {q : Char}
    (quote : ∀ {s}, (∀ t, s ≠ q :: q :: t) → scan (q :: s) = (scan s).map fun p => (q :: p.1, p.2))
    {run : Nat} (hrun : run ≤ 2) {s : List Char} (hs : s.head? ≠ some q) :
    scan (List.replicate run q ++ s) = (scan s).map fun p => (List.replicate run q ++ p.1, p.2) := by
  have hfirst : ∀ t, s ≠ q :: q :: t := by
    rintro t rfl
    exact hs rfl
  have hsecond : ∀ t, q :: s ≠ q :: q :: t := by
    intro t heq
    rw [(List.cons.inj heq).2] at hs
    exact hs rfl
  match run, hrun with
  | 0, _ => simp
  | 1, _ => exact quote hfirst
  | 2, _ =>
    show scan (q :: q :: s) = _
    rw [quote hsecond, quote hfirst, Option.map_map]
    rfl

/-! Strings over several lines with escapes. -/

theorem scanBasicBlock_letter {c x : Char} (h : unescape? c = some x) (s : List Char) :
    scanBasicBlock false ('\\' :: c :: s) = (scanBasicBlock false s).map fun p => (x :: p.1, p.2) := by
  obtain ⟨hu, hU, -⟩ := ne_of_unescape h
  rw [scanBasicBlock.eq_def]
  simp [h, hu, hU, endsLine_of_unescape h, Option.map_eq_bind, Function.comp_def]

theorem scanBasicBlock_number {a b c d x : Char} (h : numbered? [a, b, c, d] = some x) (s : List Char) :
    scanBasicBlock false ('\\' :: 'u' :: a :: b :: c :: d :: s) =
      (scanBasicBlock false s).map fun p => (x :: p.1, p.2) := by
  rw [scanBasicBlock.eq_def]
  simp [h, Option.map_eq_bind, Function.comp_def]

theorem scanBasicBlock_plain {c : Char} (h : isPlain c = true ∨ c = '\n') (hslash : c ≠ '\\') (hquote : c ≠ '"')
    (s : List Char) : scanBasicBlock false (c :: s) = (scanBasicBlock false s).map fun p => (c :: p.1, p.2) := by
  have hreturn := ne_return h
  rw [scanBasicBlock.eq_def]
  simp [h, hslash, hquote, hreturn, Option.map_eq_bind, Function.comp_def]

theorem scanBasicBlock_escape {c : Char} (hquote : c ≠ '"') (s : List Char) :
    scanBasicBlock false ((if c = '\n' then ['\n'] else escape c) ++ s) =
      (scanBasicBlock false s).map fun p => (c :: p.1, p.2) := by
  by_cases hline : c = '\n'
  · rw [if_pos hline, hline]
    exact scanBasicBlock_plain (Or.inr rfl) (by decide) (by decide) s
  · rw [if_neg hline]
    exact scan_escape (fun hplain hslash => scanBasicBlock_plain (Or.inl hplain) hslash hquote s)
      (fun h => scanBasicBlock_letter h s) fun h => scanBasicBlock_number h s

theorem head_block_ne {c : Char} (hquote : c ≠ '"') (s : List Char) :
    ((if c = '\n' then ['\n'] else escape c) ++ s).head? ≠ some '"' := by
  by_cases hline : c = '\n'
  · rw [if_pos hline]
    simp
  · rw [if_neg hline]
    obtain ⟨d, tail, heq, rfl | rfl⟩ := head_escape c <;> simp [heq, hquote]

theorem scanBasicBlock_quote {s : List Char} (h : ∀ t, s ≠ '"' :: '"' :: t) :
    scanBasicBlock false ('"' :: s) = (scanBasicBlock false s).map fun p => ('"' :: p.1, p.2) := by
  rw [scanBasicBlock.eq_def]
  split
  next heq => exact absurd (List.cons.inj heq).2 (h _)
  next heq => exact absurd (List.cons.inj heq).2 (h _)
  next heq => exact absurd (List.cons.inj heq).2 (h _)
  next heq => cases heq
  next heq => cases heq
  next heq => cases heq
  next heq => cases heq
  next heq =>
    obtain ⟨rfl, rfl⟩ := List.cons.inj heq
    simp [isPlain, Option.map_eq_bind, Function.comp_def]
  next heq => cases heq

/-- Up to two quotes belong to the text in front of the closing ones. -/
theorem scanBasicBlock_close {run : Nat} (hrun : run ≤ 2) {rest : List Char} (hrest : rest.head? ≠ some '"') :
    scanBasicBlock false (List.replicate run '"' ++ '"' :: '"' :: '"' :: rest) =
      some (List.replicate run '"', rest) := by
  have hopen : ∀ t, rest ≠ '"' :: t := by
    rintro t rfl
    exact hrest rfl
  match run, hrun with
  | 0, _ => simp [scanBasicBlock, hopen]
  | 1, _ => simp [scanBasicBlock]
  | 2, _ => simp [scanBasicBlock]

theorem writeBasicBlock_of_ne {c : Char} (hquote : c ≠ '"') (run : Nat) (s : List Char) :
    writeBasicBlock run (c :: s) = (if c = '\n' then ['\n'] else escape c) ++ writeBasicBlock 0 s := by
  rw [writeBasicBlock, if_neg hquote]
  split <;> rfl

/-- A text is read as it was written, with `run` quotes in front of it that were not read so far. -/
theorem scanBasicBlock_write {run : Nat} (hrun : run ≤ 2) (s : List Char) {rest : List Char}
    (hrest : rest.head? ≠ some '"') :
    scanBasicBlock false (List.replicate run '"' ++ (writeBasicBlock run s ++ '"' :: '"' :: '"' :: rest)) =
      some (List.replicate run '"' ++ s, rest) := by
  induction s generalizing run with
  | nil =>
    rw [writeBasicBlock, List.nil_append, List.append_nil]
    exact scanBasicBlock_close hrun hrest
  | cons c s ih =>
    have hfresh := @ih 0 (Nat.zero_le 2)
    rw [List.replicate_zero, List.nil_append, List.nil_append] at hfresh
    by_cases hquote : c = '"'
    · subst hquote
      rw [writeBasicBlock, if_pos rfl]
      by_cases hlow : run < 2
      · have hnext := @ih (run + 1) hlow
        rw [List.replicate_succ', List.append_assoc, List.append_assoc] at hnext
        rw [if_pos hlow]
        exact hnext
      · have hletter : unescape? '"' = some '"' := rfl
        rw [if_neg hlow, List.cons_append, List.cons_append, scan_run scanBasicBlock_quote hrun (by simp),
          scanBasicBlock_letter hletter, hfresh, Option.map_some, Option.map_some]
    · rw [writeBasicBlock_of_ne hquote, List.append_assoc, scan_run scanBasicBlock_quote hrun (head_block_ne hquote _),
        scanBasicBlock_escape hquote, hfresh, Option.map_some, Option.map_some]

/-! Strings without escapes. -/

theorem le_longestRun (q : Char) (run : Nat) (s : List Char) : run ≤ longestRun q run s := by
  induction s generalizing run with
  | nil => exact Nat.le_refl run
  | cons c s ih =>
    rw [longestRun]
    split
    · exact Nat.le_trans (Nat.le_succ run) (ih (run + 1))
    · exact Nat.le_max_left ..

theorem not_mem_of_longestRun {q : Char} {s : List Char} (h : longestRun q 0 s = 0) : q ∉ s := by
  induction s with
  | nil => simp
  | cons c s ih =>
    rw [longestRun] at h
    split at h
    · have := le_longestRun q (0 + 1) s
      omega
    next hne =>
      rw [List.mem_cons, not_or]
      exact ⟨Ne.symm hne, ih (by omega)⟩

theorem scanLiteral_append {s : List Char} (hplain : ∀ c ∈ s, isPlain c = true) (hquote : '\'' ∉ s)
    (rest : List Char) : scanLiteral (s ++ '\'' :: rest) = some (s, rest) := by
  induction s with
  | nil =>
    rw [List.nil_append, scanLiteral.eq_def]
    rfl
  | cons c s ih =>
    obtain ⟨hc, hs⟩ := List.forall_mem_cons.mp hplain
    rw [List.mem_cons, not_or] at hquote
    rw [List.cons_append, scanLiteral.eq_def]
    simp [hc, Ne.symm hquote.1, ih hs hquote.2]

theorem scanLiteralBlock_plain {c : Char} (h : isPlain c = true ∨ c = '\n') (hquote : c ≠ '\'') (s : List Char) :
    scanLiteralBlock (c :: s) = (scanLiteralBlock s).map fun p => (c :: p.1, p.2) := by
  have hreturn := ne_return h
  rw [scanLiteralBlock.eq_def]
  simp [h, hquote, hreturn, Option.map_eq_bind, Function.comp_def]

theorem scanLiteralBlock_quote {s : List Char} (h : ∀ t, s ≠ '\'' :: '\'' :: t) :
    scanLiteralBlock ('\'' :: s) = (scanLiteralBlock s).map fun p => ('\'' :: p.1, p.2) := by
  rw [scanLiteralBlock.eq_def]
  split
  next heq => exact absurd (List.cons.inj heq).2 (h _)
  next heq => exact absurd (List.cons.inj heq).2 (h _)
  next heq => exact absurd (List.cons.inj heq).2 (h _)
  next heq => cases heq
  next heq =>
    obtain ⟨rfl, rfl⟩ := List.cons.inj heq
    simp [isPlain, Option.map_eq_bind, Function.comp_def]
  next heq => cases heq

theorem scanLiteralBlock_close {run : Nat} (hrun : run ≤ 2) {rest : List Char} (hrest : rest.head? ≠ some '\'') :
    scanLiteralBlock (List.replicate run '\'' ++ '\'' :: '\'' :: '\'' :: rest) =
      some (List.replicate run '\'', rest) := by
  have hopen : ∀ t, rest ≠ '\'' :: t := by
    rintro t rfl
    exact hrest rfl
  match run, hrun with
  | 0, _ => simp [scanLiteralBlock, hopen]
  | 1, _ => simp [scanLiteralBlock]
  | 2, _ => simp [scanLiteralBlock]

theorem scanLiteralBlock_append {run : Nat} {s : List Char} (hclean : ∀ c ∈ s, isPlain c = true ∨ c = '\n')
    (hrun : longestRun '\'' run s ≤ 2) {rest : List Char} (hrest : rest.head? ≠ some '\'') :
    scanLiteralBlock (List.replicate run '\'' ++ (s ++ '\'' :: '\'' :: '\'' :: rest)) =
      some (List.replicate run '\'' ++ s, rest) := by
  induction s generalizing run with
  | nil =>
    rw [List.nil_append, List.append_nil]
    exact scanLiteralBlock_close hrun hrest
  | cons c s ih =>
    obtain ⟨hc, hs⟩ := List.forall_mem_cons.mp hclean
    rw [longestRun] at hrun
    by_cases hquote : c = '\''
    · subst hquote
      rw [if_pos rfl] at hrun
      have hnext := ih hs hrun
      rw [List.replicate_succ', List.append_assoc, List.append_assoc] at hnext
      exact hnext
    · rw [if_neg hquote] at hrun
      have hfresh := @ih 0 hs (by omega)
      rw [List.replicate_zero, List.nil_append, List.nil_append] at hfresh
      rw [List.cons_append, scan_run scanLiteralBlock_quote (by omega) (by simpa using hquote),
        scanLiteralBlock_plain hc hquote, hfresh, Option.map_some, Option.map_some]

/-! Strings in the form that they are written in. -/

/-- What a text is like that is written in a form other than the one with escapes on one line. -/
theorem QuotedForm.of_cases (s : List Char) :
    QuotedForm.of s = .basic ∨
    (QuotedForm.of s = .literal ∧ (∀ c ∈ s, isPlain c = true) ∧ '\'' ∉ s ∧ s ≠ []) ∨
    (QuotedForm.of s = .basicBlock ∧ ('\n' ∉ s → ∀ c ∈ s, isPlain c = true)) ∨
    (QuotedForm.of s = .literalBlock ∧ (∀ c ∈ s, isPlain c = true ∨ c = '\n') ∧ longestRun '\'' 0 s ≤ 2) := by
  have hclean : (s.all fun c => isPlain c || c = '\n') = true ↔ ∀ c ∈ s, isPlain c = true ∨ c = '\n' := by simp
  have hplain (h : ∀ c ∈ s, isPlain c = true ∨ c = '\n') (hline : '\n' ∉ s) : ∀ c ∈ s, isPlain c = true := by
    intro c hc
    refine (h c hc).resolve_right ?_
    rintro rfl
    exact hline hc
  unfold QuotedForm.of
  simp only [Bool.and_eq_true, hclean, List.contains_iff_mem]
  split
  next => exact Or.inl rfl
  next hbasic =>
    split
    next h =>
      refine Or.inr (Or.inl ⟨rfl, hplain h.1 h.2.2, not_mem_of_longestRun h.2.1, ?_⟩)
      rintro rfl
      exact hbasic (by simp [longestRun])
    next =>
      split
      next h => exact Or.inr (Or.inr (Or.inl ⟨rfl, hplain h.1.1⟩))
      next =>
        split
        next h => exact Or.inr (Or.inr (Or.inr ⟨rfl, h⟩))
        next =>
          split
          next h => exact Or.inr (Or.inr (Or.inl ⟨rfl, fun hline => absurd h hline⟩))
          next => exact Or.inl rfl

theorem skipNewline_of_head {s : List Char} (h : ∀ c ∈ s.head?, c ≠ '\n' ∧ c ≠ '\r') : skipNewline s = s := by
  cases s with
  | nil => rfl
  | cons c s =>
    obtain ⟨hn, hr⟩ := h c rfl
    simp [skipNewline, newline?, hn, hr]

/-- A text of several lines starts behind a line end, which is passed over. -/
theorem skipNewline_opening {s body : List Char} (h : '\n' ∉ s → ∀ c ∈ body.head?, c ≠ '\n' ∧ c ≠ '\r') :
    skipNewline ((if s.contains '\n' then ['\n'] else []) ++ body) = body := by
  by_cases hline : '\n' ∈ s
  · rw [if_pos (List.contains_iff_mem.mpr hline)]
    rfl
  · rw [if_neg (by simpa using hline)]
    exact skipNewline_of_head (h hline)

theorem scanString_basic {body : List Char} (h : ∀ t, body ≠ '"' :: '"' :: t) :
    scanString ('"' :: body) = scanBasic body := by
  simp [scanString]

theorem scanString_literal {body : List Char} (h : ∀ t, body ≠ '\'' :: '\'' :: t) :
    scanString ('\'' :: body) = scanLiteral body := by
  simp [scanString]

/-- Only the empty text has its closing quote right behind the opening one. -/
theorem writeBasic_ne (s : List Char) {rest : List Char} (hrest : rest.head? ≠ some '"') (t : List Char) :
    writeBasic s ++ '"' :: rest ≠ '"' :: '"' :: t := by
  cases s with
  | nil =>
    intro heq
    rw [writeBasic, List.flatMap_nil, List.nil_append] at heq
    rw [(List.cons.inj heq).2] at hrest
    exact hrest rfl
  | cons c s =>
    rw [writeBasic, List.flatMap_cons, List.append_assoc]
    by_cases hquote : c = '"'
    · simp [hquote]
    · obtain ⟨d, tail, heq, rfl | rfl⟩ := head_escape c <;> simp [heq, hquote]

theorem head_writeBasicBlock {s : List Char} (hplain : ∀ c ∈ s, isPlain c = true) (rest : List Char) :
    ∀ c ∈ (writeBasicBlock 0 s ++ '"' :: rest).head?, c ≠ '\n' ∧ c ≠ '\r' := by
  cases s with
  | nil => simp [writeBasicBlock]
  | cons d s =>
    have hd := ne_of_isPlain (hplain d List.mem_cons_self)
    by_cases hquote : d = '"'
    · simp [hquote, writeBasicBlock]
    · rw [writeBasicBlock_of_ne hquote, if_neg hd.1]
      obtain ⟨e, tail, heq, rfl | rfl⟩ := head_escape d <;> simp [heq, hd]

theorem head_append_quote {s : List Char} (hclean : ∀ c ∈ s, isPlain c = true ∨ c = '\n') (hline : '\n' ∉ s)
    (rest : List Char) : ∀ c ∈ (s ++ '\'' :: rest).head?, c ≠ '\n' ∧ c ≠ '\r' := by
  cases s with
  | nil => simp
  | cons d s =>
    rw [List.mem_cons, not_or] at hline
    have hd := (hclean d List.mem_cons_self).resolve_right (Ne.symm hline.1)
    simpa using ne_of_isPlain hd

/-- A string is read as it was written, if no quote follows it. -/
theorem scanString_writeString (s : List Char) {rest : List Char}
    (hrest : rest.head? ≠ some '"' ∧ rest.head? ≠ some '\'') : scanString (writeString s ++ rest) = some (s, rest) := by
  rw [writeString]
  rcases QuotedForm.of_cases s with hform | ⟨hform, hplain, hquote, hfilled⟩ | ⟨hform, hplain⟩ | ⟨hform, hclean, hrun⟩
  · have htext : '"' :: writeBasic s ++ ['"'] ++ rest = '"' :: (writeBasic s ++ '"' :: rest) := by simp
    simp only [hform]
    rw [htext, scanString_basic (writeBasic_ne s hrest.1)]
    exact scanBasic_writeBasic s rest
  · have htext : '\'' :: s ++ ['\''] ++ rest = '\'' :: (s ++ '\'' :: rest) := by simp
    have hopen (t : List Char) : s ++ '\'' :: rest ≠ '\'' :: '\'' :: t := by
      obtain ⟨c, u, rfl⟩ := List.exists_cons_of_ne_nil hfilled
      rw [List.mem_cons, not_or] at hquote
      exact fun heq => hquote.1 (List.cons.inj heq).1.symm
    simp only [hform]
    rw [htext, scanString_literal hopen]
    exact scanLiteral_append hplain hquote rest
  · have htext : ['"', '"', '"'] ++ (if s.contains '\n' then ['\n'] else []) ++ writeBasicBlock 0 s ++ ['"', '"', '"'] ++
        rest = '"' :: '"' :: '"' :: ((if s.contains '\n' then ['\n'] else []) ++
          (writeBasicBlock 0 s ++ '"' :: '"' :: '"' :: rest)) := by simp
    have hhead (hline : '\n' ∉ s) := head_writeBasicBlock (hplain hline) ('"' :: '"' :: rest)
    simp only [hform]
    rw [htext, scanString, skipNewline_opening hhead]
    exact scanBasicBlock_write (Nat.zero_le 2) s hrest.1
  · have htext : ['\'', '\'', '\''] ++ (if s.contains '\n' then ['\n'] else []) ++ s ++ ['\'', '\'', '\''] ++ rest =
        '\'' :: '\'' :: '\'' :: ((if s.contains '\n' then ['\n'] else []) ++
          (s ++ '\'' :: '\'' :: '\'' :: rest)) := by simp
    have hhead (hline : '\n' ∉ s) := head_append_quote hclean hline ('\'' :: '\'' :: rest)
    simp only [hform]
    rw [htext, scanString, skipNewline_opening hhead]
    exact scanLiteralBlock_append hclean hrun hrest.2

end SeriesStream.Toml
