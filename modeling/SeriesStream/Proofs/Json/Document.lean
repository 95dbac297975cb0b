import SeriesStream.Proofs.Json.Numeral
import SeriesStream.Proofs.Json.Quoted

namespace SeriesStream.Json

mutual

/-- Nothing in the document is broken, and its strings and numbers are spelled as they are written. -/
def Printable : Json → Prop
  | null => True
  | bool _ => True
  | number n => n.WellFormed
  | text q => ∃ s, q = Quoted.ofString s
  | array items => ArePrintable items
  | object members => AreMembersPrintable members
  | broken => False

def ArePrintable : List Json → Prop
  | [] => True
  | item :: rest => item.Printable ∧ ArePrintable rest

def AreMembersPrintable : List (Quoted × Json) → Prop
  | [] => True
  | (key, value) :: rest => (∃ s, key = Quoted.ofString s) ∧ value.Printable ∧ AreMembersPrintable rest

end

theorem Numeral.head_render {n : Numeral} (h : n.WellFormed) :
    ∃ c cs, n.render = c :: cs ∧ (c = '-' ∨ c.isDigit = true) := by
  obtain ⟨d, ds, hd⟩ := List.exists_cons_of_ne_nil h.someWhole
  rw [Numeral.render_eq, hd]
  cases n.negative with
  | true => exact ⟨'-', _, rfl, Or.inl rfl⟩
  | false => exact ⟨d, _, rfl, Or.inr (h.whole d (by simp [hd]))⟩

theorem skipBlank_of_head {c : Char} (h : isBlank c = false) (s : List Glyph) :
    skipBlank (some c :: s) = some c :: s := by
  simp [skipBlank, h]

/-- The text of a document begins with a character that is no blank and closes nothing. -/
theorem head_render {v : Json} (h : v.Printable) :
    ∃ c cs, v.render = c :: cs ∧ isBlank c = false ∧ c ≠ ']' ∧ c ≠ '\x7d' := by
  cases v with
  | null => exact ⟨'n', _, rfl, by decide, by decide, by decide⟩
  | bool b =>
    cases b with
    | true => exact ⟨'t', _, rfl, by decide, by decide, by decide⟩
    | false => exact ⟨'f', _, rfl, by decide, by decide, by decide⟩
  | number n =>
    rw [Printable] at h
    obtain ⟨c, cs, hrender, hc⟩ := Numeral.head_render h
    refine ⟨c, cs, by rw [render, hrender], ?_⟩
    rcases hc with rfl | hdigit
    · decide
    · refine ⟨?_, ?_, ?_⟩
      · rw [Bool.eq_false_iff]
        intro hblank
        simp only [isBlank, Bool.or_eq_true, decide_eq_true_eq] at hblank
        rcases hblank with ((rfl | rfl) | rfl) | rfl <;> simp at hdigit
      · rintro rfl
        simp at hdigit
      · rintro rfl
        simp at hdigit
  | text q =>
    rw [render, Quoted.render]
    exact ⟨'"', _, rfl, by decide, by decide, by decide⟩
  | array items => exact ⟨'[', _, by rw [render]; rfl, by decide, by decide, by decide⟩
  | object members => exact ⟨'\x7b', _, by rw [render]; rfl, by decide, by decide, by decide⟩
  | broken => exact h.elim

theorem stops_of_head {c : Char} (hdigit : c.isDigit = false) (h : c ≠ '.' ∧ c ≠ 'e' ∧ c ≠ 'E')
    (rest : List Glyph) : Stops (some c :: rest) := by
  intro d tail heq
  obtain rfl : c = d := by simpa using (List.cons.inj heq).1
  exact ⟨hdigit, h⟩

theorem readValue_number {n : Numeral} (h : n.WellFormed) {rest : List Glyph} (stop : Stops rest) (fuel : Nat) :
    readValue (fuel + 1) (n.render.map some ++ rest) = (number n, some rest) := by
  have hscan := Numeral.scan_append h stop
  obtain ⟨c, cs, hrender, hc⟩ := Numeral.head_render h
  obtain ⟨d, ds, hhead, hblank, -, -⟩ := head_render (v := number n) (by rwa [Printable])
  rw [render, hrender] at hhead
  obtain ⟨rfl, rfl⟩ := List.cons.inj hhead
  rw [hrender, List.map_cons, List.cons_append] at hscan ⊢
  have hother : c ∉ ['"', '[', '\x7b', 'n', 't', 'f'] := by
    intro hmem
    rcases hc with rfl | hdigit
    · simp at hmem
    · simp only [List.mem_cons, List.not_mem_nil, or_false] at hmem
      rcases hmem with rfl | rfl | rfl | rfl | rfl | rfl <;> simp at hdigit
  simp only [List.mem_cons, List.not_mem_nil, or_false, not_or] at hother
  simp [readValue, skipBlank_of_head hblank, hother, hscan]

theorem readValue_text (s : String) (rest : List Glyph) (fuel : Nat) :
    readValue (fuel + 1) ((Quoted.ofString s).render.map some ++ rest) =
      (text (Quoted.ofString s), some rest) := by
  obtain ⟨body, hrender, hscan⟩ := Quoted.scanQuoted_ofString s rest
  rw [hrender, List.cons_append, readValue, skipBlank_of_head (by decide)]
  simp only [hscan]

theorem renderItems_cons (item next : Json) (rest : List Json) :
    renderItems (item :: next :: rest) = item.render ++ ',' :: renderItems (next :: rest) := by
  rw [renderItems]
  simp

theorem renderMembers_cons (key : Quoted) (value : Json) (next : Quoted × Json) (rest : List (Quoted × Json)) :
    renderMembers ((key, value) :: next :: rest) =
      key.render ++ ':' :: value.render ++ ',' :: renderMembers (next :: rest) := by
  rw [renderMembers]
  simp

theorem head_renderItems {item : Json} (h : item.Printable) (rest : List Json) :
    ∃ c cs, renderItems (item :: rest) = c :: cs ∧ isBlank c = false ∧ c ≠ ']' := by
  obtain ⟨c, cs, hrender, hblank, hclose, -⟩ := head_render h
  cases rest with
  | nil => exact ⟨c, cs, by rw [renderItems, hrender], hblank, hclose⟩
  | cons next rest => exact ⟨c, _, by rw [renderItems_cons, hrender, List.cons_append], hblank, hclose⟩

theorem head_renderMembers (s : String) (value : Json) (rest : List (Quoted × Json)) :
    ∃ cs, renderMembers ((Quoted.ofString s, value) :: rest) = '"' :: cs := by
  cases rest with
  | nil => exact ⟨_, by rw [renderMembers]; rfl⟩
  | cons next rest => exact ⟨_, by rw [renderMembers_cons]; rfl⟩

-- By induction on the document. Twice the length of its text is fuel enough: at most two calls, one for a list and
-- one for what stands in it, are made before the next character is taken up.
mutual

/-- A document is read as it was written, up to where it ends. -/
theorem readValue_render : ∀ {v : Json}, v.Printable → ∀ {rest : List Glyph}, Stops rest → ∀ {fuel : Nat},
    2 * v.render.length ≤ fuel → readValue fuel (v.render.map some ++ rest) = (v, some rest)
  | v, h, rest, stop, 0, enough => by
    obtain ⟨c, cs, hrender, -⟩ := head_render h
    simp [hrender] at enough
  | null, _, rest, _, fuel + 1, _ => by
    simp [render, readValue, skipBlank, isBlank, readWord, behind?]
  | bool true, _, rest, _, fuel + 1, _ => by
    simp [render, readValue, skipBlank, isBlank, readWord, behind?]
  | bool false, _, rest, _, fuel + 1, _ => by
    simp [render, readValue, skipBlank, isBlank, readWord, behind?]
  | number n, h, rest, stop, fuel + 1, _ => by
    rw [Printable] at h
    rw [render]
    exact readValue_number h stop fuel
  | text q, h, rest, _, fuel + 1, _ => by
    rw [Printable] at h
    obtain ⟨s, rfl⟩ := h
    rw [render]
    exact readValue_text s rest fuel
  | array [], _, rest, _, fuel + 1, _ => by
    simp [render, renderItems, readValue, skipBlank, isBlank]
  | array (item :: items), h, rest, _, fuel + 1, enough => by
    rw [Printable] at h
    have hlength : 2 * (renderItems (item :: items)).length + 1 ≤ fuel := by
      simp [render] at enough
      omega
    have hitems := readItems_render h (by simp) rest hlength
    obtain ⟨c, cs, hrender, hblank, hclose⟩ := head_renderItems (by rw [ArePrintable] at h; exact h.1) items
    rw [hrender, List.map_cons, List.cons_append] at hitems
    have htext : (array (item :: items)).render.map some ++ rest =
        some '[' :: some c :: (cs.map some ++ some ']' :: rest) := by
      simp [render, hrender]
    rw [htext, readValue, skipBlank_of_head (by decide)]
    simp [skipBlank_of_head hblank, hclose, hitems]
  | object [], _, rest, _, fuel + 1, _ => by
    simp [render, renderMembers, readValue, skipBlank, isBlank]
  | object (member :: members), h, rest, _, fuel + 1, enough => by
    rw [Printable] at h
    have hlength : 2 * (renderMembers (member :: members)).length + 1 ≤ fuel := by
      simp [render] at enough
      omega
    have hmembers := readMembers_render h (by simp) rest hlength
    obtain ⟨key, value⟩ := member
    obtain ⟨⟨s, rfl⟩, -⟩ := h
    obtain ⟨cs, hrender⟩ := head_renderMembers s value members
    rw [hrender, List.map_cons, List.cons_append] at hmembers
    have htext : (object ((Quoted.ofString s, value) :: members)).render.map some ++ rest =
        some '\x7b' :: some '"' :: (cs.map some ++ some '\x7d' :: rest) := by
      simp [render, hrender]
    rw [htext, readValue, skipBlank_of_head (by decide)]
    simp [skipBlank_of_head (c := '"') (by decide), hmembers]
  | broken, h, _, _, _, _ => by
    simp [Printable] at h

theorem readItems_render : ∀ {items : List Json}, ArePrintable items → items ≠ [] → ∀ (rest : List Glyph)
    {fuel : Nat}, 2 * (renderItems items).length + 1 ≤ fuel →
    readItems fuel ((renderItems items).map some ++ some ']' :: rest) = (items, some rest)
  | _, _, _, _, 0, enough => by omega
  | [], _, filled, _, _, _ => absurd rfl filled
  | [item], h, _, rest, fuel + 1, enough => by
    rw [ArePrintable] at h
    rw [renderItems] at enough ⊢
    have hlength : 2 * item.render.length ≤ fuel := by omega
    have hitem := readValue_render h.1 (stops_of_head (c := ']') rfl (by decide) rest) hlength
    rw [readItems, hitem]
    rfl
  | item :: next :: items, h, _, rest, fuel + 1, enough => by
    rw [ArePrintable] at h
    rw [renderItems_cons] at enough ⊢
    simp only [List.length_append, List.length_cons] at enough
    have hlength : 2 * item.render.length ≤ fuel := by omega
    have hmore : 2 * (renderItems (next :: items)).length + 1 ≤ fuel := by omega
    have hitem := readValue_render h.1 (stops_of_head (c := ',') rfl (by decide)
      ((renderItems (next :: items)).map some ++ some ']' :: rest)) hlength
    have hitems := readItems_render h.2 (by simp) rest hmore
    rw [List.map_append, List.map_cons, List.append_assoc, List.cons_append, readItems, hitem]
    simp only [skipBlank_of_head (c := ',') (by decide), hitems]

theorem readMembers_render : ∀ {members : List (Quoted × Json)}, AreMembersPrintable members → members ≠ [] →
    ∀ (rest : List Glyph) {fuel : Nat}, 2 * (renderMembers members).length + 1 ≤ fuel →
    readMembers fuel ((renderMembers members).map some ++ some '\x7d' :: rest) = (members, some rest)
  | _, _, _, _, 0, enough => by omega
  | [], _, filled, _, _, _ => absurd rfl filled
  | [(key, value)], h, _, rest, fuel + 1, enough => by
    rw [AreMembersPrintable] at h
    obtain ⟨⟨s, rfl⟩, hvalue, -⟩ := h
    have hlength : 2 * value.render.length ≤ fuel := by
      simp [renderMembers] at enough
      omega
    have hread := readValue_render hvalue (stops_of_head (c := '\x7d') rfl (by decide) rest) hlength
    obtain ⟨body, hkey, hscan⟩ := Quoted.scanQuoted_ofString s
      (some ':' :: (value.render.map some ++ some '\x7d' :: rest))
    have htext : (renderMembers [(Quoted.ofString s, value)]).map some ++ some '\x7d' :: rest =
        some '"' :: (body ++ some ':' :: (value.render.map some ++ some '\x7d' :: rest)) := by
      simp [renderMembers, hkey]
    rw [htext, readMembers, skipBlank_of_head (by decide)]
    simp only [hscan, skipBlank_of_head (c := ':') (by decide), hread, skipBlank_of_head (c := '\x7d') (by decide)]
  | (key, value) :: next :: members, h, _, rest, fuel + 1, enough => by
    rw [AreMembersPrintable] at h
    obtain ⟨⟨s, rfl⟩, hvalue, hmembers⟩ := h
    rw [renderMembers_cons] at enough
    simp only [List.length_append, List.length_cons] at enough
    have hlength : 2 * value.render.length ≤ fuel := by omega
    have hbehind : 2 * (renderMembers (next :: members)).length + 1 ≤ fuel := by omega
    have hmore := readMembers_render hmembers (by simp) rest hbehind
    have hread := readValue_render hvalue (stops_of_head (c := ',') rfl (by decide)
      ((renderMembers (next :: members)).map some ++ some '\x7d' :: rest)) hlength
    obtain ⟨body, hkey, hscan⟩ := Quoted.scanQuoted_ofString s (some ':' :: (value.render.map some ++
      some ',' :: ((renderMembers (next :: members)).map some ++ some '\x7d' :: rest)))
    have htext : (renderMembers ((Quoted.ofString s, value) :: next :: members)).map some ++ some '\x7d' :: rest =
        some '"' :: (body ++ some ':' :: (value.render.map some ++
          some ',' :: ((renderMembers (next :: members)).map some ++ some '\x7d' :: rest))) := by
      simp [renderMembers_cons, hkey]
    rw [htext, readMembers, skipBlank_of_head (by decide)]
    simp only [hscan, skipBlank_of_head (c := ':') (by decide), hread, skipBlank_of_head (c := ',') (by decide),
      hmore]

end

/-- A printed document is read back whole, with nothing left over. -/
theorem read_toText {v : Json} (h : v.Printable) : read (Glyph.ofString v.toText) = (v, some []) := by
  have hlength : 2 * v.render.length ≤ 2 * (v.render.map some).length + 2 := by simp
  have hread := readValue_render h stops_nil hlength
  rw [List.append_nil] at hread
  rw [read, toText, Glyph.ofString, String.toList_ofList]
  exact hread

end SeriesStream.Json
