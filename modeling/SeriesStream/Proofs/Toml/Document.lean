import SeriesStream.Proofs.Toml.Quoted
import SeriesStream.Toml.Writer

namespace SeriesStream.Toml

/-! Blanks and line ends. -/

/-- Starts neither a blank nor a comment nor a line end. -/
def isVisible (c : Char) : Bool := !isBlank c && c ≠ '#' && c ≠ '\n' && c ≠ '\r'

theorem isBlank_of_isVisible {c : Char} (h : isVisible c = true) : isBlank c = false := by
  simp only [isVisible, Bool.and_eq_true, Bool.not_eq_true'] at h
  exact h.1.1.1

theorem skipBlank_of_head {c : Char} (h : isBlank c = false) (s : List Char) : skipBlank (c :: s) = c :: s :=
  List.dropWhile_cons_of_neg (by simp [h])

theorem skipSpace_blanks {blanks : List Char} (hblanks : blanks.all isBlank = true) {c : Char}
    (h : isVisible c = true) (s : List Char) : skipSpace (blanks ++ c :: s) = c :: s := by
  have hskip : skipBlank (blanks ++ c :: s) = c :: s := by
    rw [skipBlank, List.dropWhile_append_of_pos (List.all_eq_true.mp hblanks)]
    exact skipBlank_of_head (isBlank_of_isVisible h) s
  simp [isVisible] at h
  have hcomment : skipComment (c :: s) = c :: s := by simp [skipComment, h]
  have hline : newline? (c :: s) = none := by simp [newline?, h]
  rw [skipSpace, skipLines, hskip, hcomment, hline]

theorem skipSpace_of_head {c : Char} (h : isVisible c = true) (s : List Char) : skipSpace (c :: s) = c :: s :=
  skipSpace_blanks List.all_nil h s

theorem skipSpace_newline (s : List Char) : skipSpace ('\n' :: s) = skipSpace s := rfl

/-! Values. -/

theorem head_writeString (s : List Char) :
    ∃ q tail, (q = '"' ∨ q = '\'') ∧ writeString s = q :: tail := by
  rw [writeString]
  cases QuotedForm.of s with
  | basic => exact ⟨'"', _, Or.inl rfl, rfl⟩
  | literal => exact ⟨'\'', _, Or.inr rfl, rfl⟩
  | basicBlock => exact ⟨'"', _, Or.inl rfl, rfl⟩
  | literalBlock => exact ⟨'\'', _, Or.inr rfl, rfl⟩

theorem readValue_writeText (fuel depth : Nat) (s : String) {rest : List Char}
    (hrest : rest.head? ≠ some '"' ∧ rest.head? ≠ some '\'') :
    readValue (fuel + 1) depth (writeText s ++ rest) = some (.string s, rest) := by
  have hscan : scanString (writeText s ++ rest) = some (s.toList, rest) := scanString_writeString s.toList hrest
  obtain ⟨q, tail, hq, heq⟩ := head_writeString s.toList
  rw [writeText, heq, List.cons_append] at hscan ⊢
  rcases hq with rfl | rfl <;> simp [readValue, hscan]

theorem readValue_toDigits (fuel depth : Nat) {n : Nat} (high : (n : Int) ≤ integerHigh) (rest : List Char) :
    readValue (fuel + 1) depth (Nat.toDigits 10 n ++ '\n' :: rest) = some (.integer n, '\n' :: rest) := by
  have hne {c : Char} (hdigit : c.isDigit = false) (hline : c ≠ '\n') (tail : List Char) :
      Nat.toDigits 10 n ++ '\n' :: rest ≠ c :: tail := line_ne rest (wholeDigits_toDigits n).digits hdigit hline tail
  rw [readValue.eq_def]
  simp only
  split
  next heq => exact absurd heq (hne (by decide) (by decide) _)
  next heq => exact absurd heq (hne (by decide) (by decide) _)
  next heq => exact absurd heq (hne (by decide) (by decide) _)
  next heq => exact absurd heq (hne (by decide) (by decide) _)
  next heq => exact absurd heq (hne (by decide) (by decide) _)
  next heq => exact absurd heq (hne (by decide) (by decide) _)
  next => exact readNumber_toDigits high rest

/-! Arrays of strings. -/

theorem readItems_last (fuel depth : Nat) (s : String) (rest : List Char) :
    readItems (fuel + 2) depth (writeText s ++ ']' :: rest) = some ([.string s], rest) := by
  have hvalue : readValue (fuel + 1) depth (writeText s ++ ']' :: rest) = some (.string s, ']' :: rest) :=
    readValue_writeText fuel depth s (by simp)
  have hclose : skipSpace (']' :: rest) = ']' :: rest := skipSpace_of_head (by decide) rest
  obtain ⟨q, tail, hq, heq⟩ := head_writeString s.toList
  rw [writeText, heq, List.cons_append] at hvalue ⊢
  have hopen : skipSpace (q :: (tail ++ ']' :: rest)) = q :: (tail ++ ']' :: rest) := by
    rcases hq with rfl | rfl <;> exact skipSpace_of_head (by decide) _
  rw [readItems, hopen]
  rcases hq with rfl | rfl <;> simp [hvalue, hclose]

/-- An item on a line of its own. -/
theorem readItems_line (fuel depth : Nat) (s : String) (rest : List Char) :
    readItems (fuel + 2) depth ('\n' :: ("    ".toList ++ (writeText s ++ ',' :: rest))) =
      (readItems (fuel + 1) depth rest).map fun p => (.string s :: p.1, p.2) := by
  have hvalue : readValue (fuel + 1) depth (writeText s ++ ',' :: rest) = some (.string s, ',' :: rest) :=
    readValue_writeText fuel depth s (by simp)
  have hcomma : skipSpace (',' :: rest) = ',' :: rest := skipSpace_of_head (by decide) rest
  obtain ⟨q, tail, hq, heq⟩ := head_writeString s.toList
  rw [writeText, heq, List.cons_append] at hvalue ⊢
  have hopen : skipSpace ('\n' :: ("    ".toList ++ q :: (tail ++ ',' :: rest))) = q :: (tail ++ ',' :: rest) := by
    rw [skipSpace_newline]
    rcases hq with rfl | rfl <;> exact skipSpace_blanks (by decide) (by decide) _
  rw [readItems, hopen]
  rcases hq with rfl | rfl <;> simp [hvalue, hcomma, Option.map_eq_bind, Function.comp_def]

/-- The strings of an array that is broken over lines. -/
def textLines (items : List String) : List Char :=
  items.flatMap fun s => "    ".toList ++ writeText s ++ [',', '\n']

theorem writeTexts_several (s t : String) (items : List String) :
    writeTexts (s :: t :: items) = '[' :: '\n' :: (textLines (s :: t :: items) ++ [']']) := rfl

theorem readItems_textLines (depth : Nat) (items : List String) (rest : List Char) {fuel : Nat}
    (enough : (textLines items).length < fuel) :
    readItems fuel depth ('\n' :: (textLines items ++ ']' :: rest)) = some (items.map .string, rest) := by
  induction items generalizing fuel with
  | nil =>
    obtain ⟨fuel, rfl⟩ : ∃ f, fuel = f + 1 := ⟨fuel - 1, by omega⟩
    rfl
  | cons s items ih =>
    have htext : textLines (s :: items) ++ ']' :: rest =
        "    ".toList ++ (writeText s ++ ',' :: '\n' :: (textLines items ++ ']' :: rest)) := by simp [textLines]
    have hlength : (textLines items).length + 2 ≤ (textLines (s :: items)).length := by
      simp [textLines]
      omega
    obtain ⟨fuel, rfl⟩ : ∃ f, fuel = f + 2 := ⟨fuel - 2, by omega⟩
    rw [htext, readItems_line, ih (by omega)]
    rfl

theorem readValue_bracket (fuel depth : Nat) (s : List Char) :
    readValue (fuel + 1) (depth + 1) ('[' :: s) = (readItems fuel depth s).map fun p => (.array p.1, p.2) := by
  rw [readValue]

theorem readValue_writeTexts (depth : Nat) (items : List String) (rest : List Char) {fuel : Nat}
    (enough : 2 * (writeTexts items).length < fuel) :
    readValue fuel (depth + 1) (writeTexts items ++ rest) = some (.array (items.map .string), rest) := by
  match items with
  | [] =>
    obtain ⟨fuel, rfl⟩ : ∃ f, fuel = f + 2 := ⟨fuel - 2, by simp [writeTexts] at enough; omega⟩
    rfl
  | [s] =>
    have htext : writeTexts [s] ++ rest = '[' :: (writeText s ++ ']' :: rest) := by simp [writeTexts]
    obtain ⟨fuel, rfl⟩ : ∃ f, fuel = f + 3 := ⟨fuel - 3, by simp [writeTexts] at enough; omega⟩
    rw [htext, readValue_bracket, readItems_last]
    rfl
  | s :: t :: items =>
    have htext : writeTexts (s :: t :: items) ++ rest =
        '[' :: '\n' :: (textLines (s :: t :: items) ++ ']' :: rest) := by simp [writeTexts_several]
    obtain ⟨fuel, rfl⟩ : ∃ f, fuel = f + 1 := ⟨fuel - 1, by omega⟩
    rw [htext, readValue_bracket, readItems_textLines depth _ rest (by simp [writeTexts_several] at enough; omega)]
    rfl

/-- A text is read as a value, up to the end of its line. -/
structure Spells (text : List Char) (v : Node) : Prop where
  visible : ∃ c tail, text = c :: tail ∧ isBlank c = false
  read : ∀ rest, ∀ {fuel}, 2 * text.length < fuel →
    readValue fuel depthMax (text ++ '\n' :: rest) = some (v, '\n' :: rest)

theorem spells_text (s : String) : Spells (writeText s) (.string s) where
  visible := by
    obtain ⟨q, tail, hq, heq⟩ := head_writeString s.toList
    exact ⟨q, tail, heq, by rcases hq with rfl | rfl <;> rfl⟩
  read rest fuel enough := by
    obtain ⟨fuel, rfl⟩ : ∃ f, fuel = f + 1 := ⟨fuel - 1, by omega⟩
    exact readValue_writeText fuel depthMax s (by simp)

theorem spells_texts (items : List String) : Spells (writeTexts items) (.array (items.map .string)) where
  visible := by
    match items with
    | [] => exact ⟨'[', _, rfl, rfl⟩
    | [_] => exact ⟨'[', _, rfl, rfl⟩
    | _ :: _ :: _ => exact ⟨'[', _, rfl, rfl⟩
  read rest _ enough := readValue_writeTexts _ items ('\n' :: rest) enough

theorem spells_nat {n : Nat} (high : (n : Int) ≤ integerHigh) : Spells (Nat.toDigits 10 n) (.integer n) where
  visible := by
    have hwhole := wholeDigits_toDigits n
    obtain ⟨d, ds, hds⟩ := List.exists_cons_of_ne_nil hwhole.filled
    have hd : d.isDigit = true := hwhole.digits d (by rw [hds]; exact List.mem_cons_self)
    have hspace : d ≠ ' ' := ne_of_kind hd (by decide)
    have htab : d ≠ '\t' := ne_of_kind hd (by decide)
    exact ⟨d, ds, hds, by simp [isBlank, hspace, htab]⟩
  read rest fuel enough := by
    obtain ⟨fuel, rfl⟩ : ∃ f, fuel = f + 1 := ⟨fuel - 1, by omega⟩
    exact readValue_toDigits fuel depthMax high rest

/-! Keys without quotes. -/

def BareKey (key : String) : Prop := key.toList ≠ [] ∧ key.toList.all isBare = true

instance (key : String) : Decidable (BareKey key) := inferInstanceAs (Decidable (_ ∧ _))

theorem isVisible_of_isBare {c : Char} (h : isBare c = true) : isVisible c = true := by
  have hspace : c ≠ ' ' := ne_of_kind h (by decide)
  have htab : c ≠ '\t' := ne_of_kind h (by decide)
  have hhash : c ≠ '#' := ne_of_kind h (by decide)
  have hline : c ≠ '\n' := ne_of_kind h (by decide)
  have hreturn : c ≠ '\r' := ne_of_kind h (by decide)
  simp [isVisible, isBlank, hspace, htab, hhash, hline, hreturn]

theorem BareKey.exists_cons {key : String} (h : BareKey key) : ∃ k ks, key.toList = k :: ks ∧ isBare k = true := by
  obtain ⟨k, ks, hkey⟩ := List.exists_cons_of_ne_nil h.1
  exact ⟨k, ks, hkey, List.all_eq_true.mp h.2 k (by rw [hkey]; exact List.mem_cons_self)⟩

theorem simpleKey?_bare {key : String} (h : BareKey key) {c : Char} (stop : isBare c = false) (rest : List Char) :
    simpleKey? (key.toList ++ c :: rest) = some (key.toList, c :: rest) := by
  have hbare := List.all_eq_true.mp h.2
  have htake : (key.toList ++ c :: rest).takeWhile isBare = key.toList := by
    rw [List.takeWhile_append_of_pos hbare, List.takeWhile_cons_of_neg (by simp [stop]), List.append_nil]
  have hdrop : (key.toList ++ c :: rest).dropWhile isBare = c :: rest := by
    rw [List.dropWhile_append_of_pos hbare, List.dropWhile_cons_of_neg (by simp [stop])]
  obtain ⟨k, ks, hkey, hk⟩ := h.exists_cons
  have hdouble : k ≠ '"' := ne_of_kind hk (by decide)
  have hsingle : k ≠ '\'' := ne_of_kind hk (by decide)
  rw [hkey, List.cons_append] at htake hdrop ⊢
  simp [simpleKey?, hdouble, hsingle, htake, hdrop]

theorem key?_bare {key : String} (h : BareKey key) {c d : Char} {rest tail : List Char} (stop : isBare c = false)
    (hskip : skipBlank (c :: rest) = d :: tail) (hdot : d ≠ '.') :
    key? (key.toList ++ c :: rest) = some ([key], d :: tail) := by
  have hsimple := simpleKey?_bare h stop rest
  have hfirst : skipBlank (key.toList ++ c :: rest) = key.toList ++ c :: rest := by
    obtain ⟨k, ks, hkey, hk⟩ := h.exists_cons
    rw [hkey, List.cons_append]
    exact skipBlank_of_head (isBlank_of_isVisible (isVisible_of_isBare hk)) _
  have hkey : String.ofList key.toList = key := String.ofList_toList
  show keyWithin (78 + 1) _ = _
  rw [keyWithin, hfirst, hsimple]
  simp [hskip, hdot, hkey]

/-! Statements. -/

theorem lineEnd?_newline (rest : List Char) : lineEnd? ('\n' :: rest) = some rest := rfl

theorem statement?_header {key : String} (h : BareKey key) (rest : List Char) :
    statement? ('[' :: (key.toList ++ ']' :: '\n' :: rest)) = some (.header [] key, rest) := by
  have hkey : key? (key.toList ++ ']' :: '\n' :: rest) = some ([key], ']' :: '\n' :: rest) :=
    key?_bare h (by decide) rfl (by decide)
  obtain ⟨k, ks, hcons, hk⟩ := h.exists_cons
  have hbracket : k ≠ '[' := ne_of_kind hk (by decide)
  rw [hcons, List.cons_append] at hkey ⊢
  simp [statement?, hbracket, path?, hkey, behind?, lineEnd?_newline]

theorem statement?_writePair {key : String} (h : BareKey key) {text : List Char} {v : Node} (spells : Spells text v)
    (rest : List Char) : statement? (writePair key text ++ rest) = some (.pair [key] v, rest) := by
  have htext : writePair key text ++ rest = key.toList ++ ' ' :: '=' :: ' ' :: (text ++ '\n' :: rest) := by
    simp [writePair]
  have hkey : key? (key.toList ++ ' ' :: '=' :: ' ' :: (text ++ '\n' :: rest)) =
      some ([key], '=' :: ' ' :: (text ++ '\n' :: rest)) := key?_bare h (by decide) rfl (by decide)
  have hskip : skipBlank (' ' :: (text ++ '\n' :: rest)) = text ++ '\n' :: rest := by
    obtain ⟨c, tail, heq, hc⟩ := spells.visible
    rw [heq]
    exact skipBlank_of_head hc _
  have henough : 2 * text.length < 2 * (text ++ '\n' :: rest).length + 1 := by
    rw [List.length_append]
    omega
  have hvalue := spells.read rest henough
  obtain ⟨k, ks, hcons, hk⟩ := h.exists_cons
  have hbracket : k ≠ '[' := ne_of_kind hk (by decide)
  rw [htext]
  generalize text ++ '\n' :: rest = s at hkey hskip hvalue ⊢
  rw [hcons, List.cons_append] at hkey ⊢
  simp [statement?, hbracket, hkey, behind?, hskip, hvalue, lineEnd?_newline]

/-- These statements are read from a text, if it may have as many lines as it has characters. -/
def Describes (text : List Char) (statements : List Statement) : Prop :=
  ∀ lines, text.length < lines → readStatements lines text = some statements

theorem describes_nil : Describes [] [] := by
  intro lines enough
  obtain ⟨lines, rfl⟩ : ∃ n, lines = n + 1 := ⟨lines - 1, by omega⟩
  rfl

theorem Describes.newline {text : List Char} {statements : List Statement} (h : Describes text statements) :
    Describes ('\n' :: text) statements := by
  intro lines enough
  have hread := h lines (by simp at enough; omega)
  obtain ⟨lines, rfl⟩ : ∃ n, lines = n + 1 := ⟨lines - 1, by omega⟩
  rw [readStatements] at hread ⊢
  exact hread

theorem Describes.cons {c : Char} {text rest : List Char} {first : Statement} {statements : List Statement}
    (visible : isVisible c = true) (starts : statement? (c :: text) = some (first, rest))
    (shorter : rest.length ≤ text.length) (h : Describes rest statements) :
    Describes (c :: text) (first :: statements) := by
  intro lines enough
  have hskip : skipSpace (c :: text) = c :: text := skipSpace_of_head visible text
  have hhash : c ≠ '#' := ne_of_kind visible (by decide)
  rw [List.length_cons] at enough
  obtain ⟨lines, rfl⟩ : ∃ n, lines = n + 1 := ⟨lines - 1, by omega⟩
  simp [readStatements, hskip, hhash, starts, h lines (by omega)]

/-- A pair of a table, with the text of its value. -/
structure Pair where
  key : String
  text : List Char
  value : Node
  bare : BareKey key
  spells : Spells text value

namespace Pair

def written (p : Pair) : String × List Char := (p.key, p.text)

def statement (p : Pair) : Statement := .pair [p.key] p.value

def entry (p : Pair) : String × Node := (p.key, p.value)

end Pair

/-- A table under a header of its own. -/
structure Table where
  key : String
  pairs : List Pair
  bare : BareKey key
  distinct : (pairs.map Pair.key).Nodup

namespace Table

def text (t : Table) : List Char := writeTable t.key (t.pairs.map Pair.written)

def statements (t : Table) : List Statement := .header [] t.key :: t.pairs.map Pair.statement

def entry (t : Table) : String × Node := (t.key, .table .header (t.pairs.map Pair.entry))

end Table

theorem Describes.pair (p : Pair) {rest : List Char} {statements : List Statement} (h : Describes rest statements) :
    Describes (writePair p.key p.text ++ rest) (p.statement :: statements) := by
  have hstarts := statement?_writePair p.bare p.spells rest
  obtain ⟨k, ks, hkey, hk⟩ := p.bare.exists_cons
  have htext : writePair p.key p.text ++ rest = k :: (ks ++ ' ' :: '=' :: ' ' :: (p.text ++ '\n' :: rest)) := by
    simp [writePair, hkey]
  rw [htext] at hstarts ⊢
  exact h.cons (isVisible_of_isBare hk) hstarts (by simp; omega)

theorem Describes.pairs (pairs : List Pair) {rest : List Char} {statements : List Statement}
    (h : Describes rest statements) :
    Describes ((pairs.map Pair.written).flatMap (fun p => writePair p.1 p.2) ++ rest)
      (pairs.map Pair.statement ++ statements) := by
  induction pairs with
  | nil => exact h
  | cons p pairs ih =>
    rw [List.map_cons, List.flatMap_cons, List.append_assoc]
    exact ih.pair p

theorem Describes.table (t : Table) {rest : List Char} {statements : List Statement} (h : Describes rest statements) :
    Describes (t.text ++ rest) (t.statements ++ statements) := by
  have htext : t.text ++ rest = '[' :: (t.key.toList ++ ']' :: '\n' ::
      ((t.pairs.map Pair.written).flatMap (fun p => writePair p.1 p.2) ++ rest)) := by simp [Table.text, writeTable]
  rw [htext]
  exact (h.pairs t.pairs).cons (by decide) (statement?_header t.bare _) (by simp; omega)

/-! Drafts. -/

namespace Entries

theorem lookup_append {key : String} {root : Entries} (fresh : root.lookup key = none) (v : Node) :
    (root ++ [(key, v)]).lookup key = some v := by
  rw [List.lookup_append, fresh, List.lookup_cons_self]
  rfl

theorem put_append {key : String} {root : Entries} (fresh : root.lookup key = none) (v w : Node) :
    put key w (root ++ [(key, v)]) = root ++ [(key, w)] := by
  induction root with
  | nil => simp [put]
  | cons entry root ih =>
    obtain ⟨k, x⟩ := entry
    rw [List.lookup_eq_none_iff, List.forall_mem_cons] at fresh
    have hne : k ≠ key := Ne.symm (by simpa using fresh.1)
    have hnext := ih (List.lookup_eq_none_iff.mpr fresh.2)
    simp [put, hne, hnext]

end Entries

namespace Draft

theorem add_header {key : String} {d : Draft} (fresh : d.root.lookup key = none) :
    d.add (.header [] key) = some ⟨d.root ++ [(key, .table .header [])], [key]⟩ := by
  simp [add, Entries.within, Entries.openTable, fresh]

theorem add_pair {key : String} {root entries : Entries} (fresh : root.lookup key = none) (p : Pair)
    (unset : entries.lookup p.key = none) :
    add ⟨root ++ [(key, .table .header entries)], [key]⟩ p.statement =
      some ⟨root ++ [(key, .table .header (entries ++ [p.entry]))], [key]⟩ := by
  simp [add, Pair.statement, Pair.entry, Entries.within, Entries.enter, Entries.assign,
    Entries.lookup_append fresh, Entries.put_append fresh, unset]

theorem foldlM_pairs {key : String} {root entries : Entries} (fresh : root.lookup key = none) (pairs : List Pair)
    (distinct : (entries.map (·.1) ++ pairs.map Pair.key).Nodup) :
    (pairs.map Pair.statement).foldlM add ⟨root ++ [(key, .table .header entries)], [key]⟩ =
      some ⟨root ++ [(key, .table .header (entries ++ pairs.map Pair.entry))], [key]⟩ := by
  induction pairs generalizing entries with
  | nil => simp
  | cons p pairs ih =>
    have unset : entries.lookup p.key = none := by
      rw [List.lookup_eq_none_iff]
      intro entry hentry
      have hne := (List.nodup_append.mp distinct).2.2 entry.1 (List.mem_map_of_mem hentry) p.key List.mem_cons_self
      exact bne_iff_ne.mpr (Ne.symm hne)
    have hdistinct : ((entries ++ [p.entry]).map (·.1) ++ pairs.map Pair.key).Nodup := by
      simpa [Pair.entry] using distinct
    have hnext := ih hdistinct
    rw [List.map_cons, List.foldlM_cons, add_pair fresh p unset]
    simpa using hnext

/-- A table is put behind the others, with all its pairs. -/
theorem foldlM_table {d : Draft} (t : Table) (fresh : d.root.lookup t.key = none) :
    t.statements.foldlM add d = some ⟨d.root ++ [t.entry], [t.key]⟩ := by
  rw [Table.statements, List.foldlM_cons, add_header fresh]
  exact foldlM_pairs fresh t.pairs t.distinct

end Draft

/-- Two tables are read as they were written, with an empty line between them. -/
theorem read_tables {t u : Table} (distinct : t.key ≠ u.key) :
    read (String.ofList (t.text ++ '\n' :: u.text)) = some [t.entry, u.entry] := by
  have hdescribes : Describes (t.text ++ '\n' :: u.text) (t.statements ++ u.statements) := by
    have hlast := describes_nil.table u
    rw [List.append_nil, List.append_nil] at hlast
    exact hlast.newline.table t
  have hmark : skipMark (t.text ++ '\n' :: u.text) = t.text ++ '\n' :: u.text := rfl
  have hfresh : ([t.entry] : Entries).lookup u.key = none := by
    rw [List.lookup_eq_none_iff, List.forall_mem_singleton]
    exact bne_iff_ne.mpr (Ne.symm distinct)
  have hassemble : Draft.assemble (t.statements ++ u.statements) = some [t.entry, u.entry] := by
    have hlast := Draft.foldlM_table (d := ⟨[t.entry], [t.key]⟩) u hfresh
    rw [Draft.assemble, List.foldlM_append, Draft.foldlM_table t rfl]
    simp [hlast]
  have hstatements := hdescribes _ (Nat.lt_succ_self _)
  rw [read, String.toList_ofList]
  simp only [hmark, hstatements]
  exact hassemble

end SeriesStream.Toml
