import SeriesStream.Framing
import SeriesStream.Proofs.Frames

namespace SeriesStream

namespace Json

/-- No character of the text is below the blank, so nothing in it ends a line. -/
def OneLine (chars : List Char) : Prop := ∀ c ∈ chars, 0x20 ≤ c.toNat

instance (chars : List Char) : Decidable (OneLine chars) :=
  decidable_of_iff (chars.all fun c => decide (0x20 ≤ c.toNat)) (by simp [OneLine])

theorem oneLine_append {front back : List Char} (hfront : OneLine front) (hback : OneLine back) :
    OneLine (front ++ back) := by
  intro c hc
  rcases List.mem_append.mp hc with hc | hc
  · exact hfront c hc
  · exact hback c hc

theorem oneLine_cons {c : Char} {rest : List Char} (hc : 0x20 ≤ c.toNat) (hrest : OneLine rest) :
    OneLine (c :: rest) :=
  List.forall_mem_cons.mpr ⟨hc, hrest⟩

theorem oneLine_digits {ds : List Char} (h : ∀ c ∈ ds, c.isDigit = true) : OneLine ds := by
  intro c hc
  have hdigit := h c hc
  simp only [Char.isDigit, Bool.and_eq_true, decide_eq_true_eq] at hdigit
  have hlow : (48 : Nat) ≤ c.toNat := hdigit.1
  omega

/-- A character that would end a line is escaped. -/
theorem oneLine_escape (c : Char) : OneLine ((escape? c).getD [c]) := by
  have hhex : ∀ n < 0x20, OneLine ['\\', 'u', '0', '0', Nat.digitChar (n / 16), Nat.digitChar (n % 16)] := by
    decide
  by_cases hquote : c = '"'
  · subst hquote
    decide
  by_cases hslash : c = '\\'
  · subst hslash
    decide
  by_cases hcontrol : c.toNat < 0x20
  · unfold escape?
    rw [if_neg hquote, if_neg hslash, if_pos hcontrol]
    split
    · exact (by decide : OneLine ['\\', 'b'])
    · exact (by decide : OneLine ['\\', 't'])
    · exact (by decide : OneLine ['\\', 'n'])
    · exact (by decide : OneLine ['\\', 'f'])
    · exact (by decide : OneLine ['\\', 'r'])
    · exact hhex c.toNat hcontrol
  · have hescape : escape? c = none := by simp [escape?, hquote, hslash, hcontrol]
    rw [hescape]
    exact oneLine_cons (by omega) (List.forall_mem_nil _)

theorem oneLine_quoted (s : String) : OneLine (Quoted.ofString s).render := by
  have hquote : OneLine ['"'] := by decide
  refine oneLine_append (oneLine_cons (by decide) ?_) hquote
  intro d hd
  obtain ⟨g, hg, hd⟩ := List.mem_flatMap.mp hd
  obtain ⟨c, -, rfl⟩ := List.mem_map.mp hg
  exact oneLine_escape c d hd

theorem oneLine_numeral {n : Numeral} (h : n.WellFormed) : OneLine n.render := by
  have hexponent : OneLine (Numeral.exponentText n.exponent) := by
    cases hexp : n.exponent with
    | none => decide
    | some e =>
      obtain ⟨sign, ds⟩ := e
      have hds := oneLine_digits (h.exponent sign ds hexp).2
      rcases sign with - | - | - <;> simp only [Numeral.exponentText]
      · exact oneLine_cons (by decide) hds
      · exact oneLine_cons (by decide) (oneLine_cons (by decide) hds)
      · exact oneLine_cons (by decide) (oneLine_cons (by decide) hds)
  rw [Numeral.render_eq]
  refine oneLine_append ?_ (oneLine_append (oneLine_digits h.whole) (oneLine_append ?_ hexponent))
  · split <;> decide
  · split
    · decide
    · exact oneLine_cons (by decide) (oneLine_digits h.fraction)

-- By induction on the document; what stands between the parts of a list is on the line as well.
mutual

theorem oneLine_render : ∀ {v : Json}, v.Printable → OneLine v.render
  | null, _ => by decide
  | bool true, _ => by decide
  | bool false, _ => by decide
  | number n, h => by
    rw [Printable] at h
    rw [render]
    exact oneLine_numeral h
  | text q, h => by
    rw [Printable] at h
    obtain ⟨s, rfl⟩ := h
    rw [render]
    exact oneLine_quoted s
  | array items, h => by
    rw [Printable] at h
    rw [render]
    have hclose : OneLine [']'] := by decide
    exact oneLine_append (oneLine_cons (by decide) (oneLine_renderItems h)) hclose
  | object members, h => by
    rw [Printable] at h
    rw [render]
    have hclose : OneLine ['\x7d'] := by decide
    exact oneLine_append (oneLine_cons (by decide) (oneLine_renderMembers h)) hclose
  | broken, h => by
    simp [Printable] at h

theorem oneLine_renderItems : ∀ {items : List Json}, ArePrintable items → OneLine (renderItems items)
  | [], _ => by
    rw [renderItems]
    decide
  | [item], h => by
    rw [ArePrintable] at h
    rw [renderItems]
    exact oneLine_render h.1
  | item :: next :: items, h => by
    rw [ArePrintable] at h
    rw [renderItems_cons]
    exact oneLine_append (oneLine_render h.1) (oneLine_cons (by decide) (oneLine_renderItems h.2))

theorem oneLine_renderMembers : ∀ {members : List (Quoted × Json)}, AreMembersPrintable members →
    OneLine (renderMembers members)
  | [], _ => by
    rw [renderMembers]
    decide
  | [(key, value)], h => by
    rw [AreMembersPrintable] at h
    obtain ⟨⟨s, rfl⟩, hvalue, -⟩ := h
    rw [renderMembers]
    exact oneLine_append (oneLine_quoted s) (oneLine_cons (by decide) (oneLine_render hvalue))
  | (key, value) :: next :: members, h => by
    rw [AreMembersPrintable] at h
    obtain ⟨⟨s, rfl⟩, hvalue, hmembers⟩ := h
    rw [renderMembers_cons]
    have hmember := oneLine_append (oneLine_quoted s) (oneLine_cons (c := ':') (by decide) (oneLine_render hvalue))
    exact oneLine_append hmember (oneLine_cons (by decide) (oneLine_renderMembers hmembers))

end

namespace Datum

theorem writeItems_map {α : Type} {datum : α → Datum} {json : α → Json}
    (h : ∀ a, (datum a).write = .ok (json a)) (items : List α) :
    writeItems (items.map datum) = .ok (items.map json) := by
  induction items with
  | nil => rw [List.map_nil, writeItems]; rfl
  | cons item rest ih =>
    rw [List.map_cons, writeItems, h, ih]
    rfl

/-- Entries are written if their keys are. -/
theorem writeEntries_map {α : Type} {key value : α → Datum} {name : α → String} {json : α → Json}
    (hkey : ∀ a, (key a).key = .ok (name a)) (hvalue : ∀ a, (value a).write = .ok (json a)) (entries : List α) :
    writeEntries (entries.map fun a => (key a, value a)) = .ok (entries.map fun a => (name a, json a)) := by
  induction entries with
  | nil => rw [List.map_nil, writeEntries]; rfl
  | cons entry rest ih =>
    rw [List.map_cons, writeEntries, hkey, hvalue, ih]
    rfl

end Datum

end Json

open Json (Datum)

theorem TagSet.write_datum (t : TagSet) : t.datum.write = .ok t.toJson := by
  have hentries : Datum.writeEntries (t.entries.map fun e => (.text e.1, .text e.2)) =
      .ok (t.entries.map fun e => (e.1, .ofString e.2)) :=
    Datum.writeEntries_map (fun _ => rfl) (fun _ => by rw [Datum.write]) t.entries
  rw [TagSet.datum, Datum.write, hentries]
  rfl

/-- The timestamps are put in quotes. -/
theorem Samples.write_datum (s : Samples) : s.datum.write = .ok s.toJson := by
  have hentries : Datum.writeEntries (s.entries.map fun e => (.integer e.1, .float e.2)) =
      .ok (s.entries.map fun e => (toString e.1, .ofFloat e.2)) :=
    Datum.writeEntries_map (fun _ => rfl) (fun _ => by rw [Datum.write]) s.entries
  rw [Samples.datum, Datum.write, hentries]
  rfl

theorem Window.write_datum (w : Window) : w.datum.write = .ok w.toJson := by
  simp only [Window.datum, Datum.write, Datum.writeFields]
  rfl

theorem WindowSeries.write_datum (s : WindowSeries) : s.datum.write = .ok s.toJson := by
  simp only [WindowSeries.datum, Datum.write, Datum.writeFields, s.window.write_datum, s.tags.write_datum,
    s.values.write_datum]
  rfl

namespace Text

section

variable {c : Char} {tail : List Char}

theorem piecesAfter_skip (sep skipped rest : List Char) :
    piecesAfter sep skipped.length (skipped ++ rest) = piecesAfter sep 0 rest := by
  induction skipped with
  | nil => rfl
  | cons c skipped ih => rw [List.length_cons, List.cons_append, piecesAfter, ih]

/-- A piece ends at the first separator if its first character does not stand in the piece. -/
theorem piecesAfter_append {piece : List Char} (h : c ∉ piece) (rest : List Char) :
    piecesAfter (c :: tail) 0 (piece ++ (c :: tail) ++ rest) = piece :: piecesAfter (c :: tail) 0 rest := by
  induction piece with
  | nil =>
    have hfound : (c :: tail).isPrefixOf (c :: (tail ++ rest)) = true :=
      List.isPrefixOf_iff_prefix.mpr ⟨rest, rfl⟩
    rw [List.nil_append, List.cons_append, piecesAfter, if_pos hfound]
    exact congrArg _ (piecesAfter_skip (c :: tail) tail rest)
  | cons d piece ih =>
    have hd : c ≠ d := fun heq => h (heq ▸ List.mem_cons_self)
    have hpiece : c ∉ piece := fun hmem => h (List.mem_cons_of_mem _ hmem)
    have hother : ¬(c :: tail).isPrefixOf (d :: (piece ++ (c :: tail) ++ rest)) = true := by
      simp [List.isPrefixOf, hd]
    rw [List.cons_append, List.cons_append, piecesAfter, if_neg hother, ih hpiece]
    rfl

/-- Pieces that were each closed by the separator are found again, with nothing behind the last one. -/
theorem piecesAfter_flatMap {frames : List (List Char)} (h : ∀ frame ∈ frames, c ∉ frame) :
    piecesAfter (c :: tail) 0 (frames.flatMap (· ++ (c :: tail))) = frames ++ [[]] := by
  induction frames with
  | nil => rfl
  | cons frame frames ih =>
    obtain ⟨hframe, hframes⟩ := List.forall_mem_cons.mp h
    rw [List.flatMap_cons, piecesAfter_append hframe, ih hframes]
    rfl

end

theorem behind?_append (front s : String) : behind? front (front ++ s) = some s := by
  have hfront : front.toList.isPrefixOf (front ++ s).toList = true := by
    rw [String.toList_append]
    exact List.isPrefixOf_iff_prefix.mpr ⟨s.toList, rfl⟩
  rw [behind?, if_pos hfront, String.toList_append, List.drop_left, String.ofList_toList]

end Text

namespace StreamEvent

theorem write_datum (e : StreamEvent) : e.datum.write = .ok e.toJson := by
  cases e with
  | info message =>
    simp only [datum, Datum.write, Datum.writeFields]
    rfl
  | data results =>
    simp only [datum, Datum.write, Datum.writeFields, Datum.writeItems_map WindowSeries.write_datum]
    rfl
  | error message =>
    simp only [datum, Datum.write, Datum.writeFields]
    rfl
  | close =>
    simp only [datum, Datum.write, Datum.writeFields]
    rfl

theorem sent_eq_frame (e : StreamEvent) : e.sent = e.frame := by
  rw [sent, e.write_datum, frame]

theorem oneLine_text (e : StreamEvent) : Json.OneLine e.toJson.toText.toList := by
  rw [Json.toText, String.toList_ofList]
  exact Json.oneLine_render e.printable

/-- A frame up to its suffix has no end of a line in it. -/
theorem newline_not_mem (e : StreamEvent) : '\n' ∉ (framePrefix ++ e.toJson.toText).toList := by
  intro hmem
  rw [String.toList_append] at hmem
  rcases List.mem_append.mp hmem with hprefix | htext
  · revert hprefix
    decide
  · exact absurd (e.oneLine_text '\n' htext) (by decide)

theorem pieces_frames (events : List StreamEvent) : Text.pieces (String.join (events.map frame)) frameSuffix =
    events.map (fun e => framePrefix ++ e.toJson.toText) ++ [""] := by
  have hchars : (String.join (events.map frame)).toList =
      (events.map fun e => (framePrefix ++ e.toJson.toText).toList).flatMap (· ++ frameSuffix.toList) := by
    rw [String.toList_join, List.flatMap_map, List.flatMap_map]
    simp only [frame, String.toList_append]
  have hsuffix : frameSuffix.toList = ['\n', '\n'] := rfl
  have hlines : ∀ frame ∈ events.map fun e => (framePrefix ++ e.toJson.toText).toList, '\n' ∉ frame := by
    intro frame hframe
    obtain ⟨e, -, rfl⟩ := List.mem_map.mp hframe
    exact e.newline_not_mem
  rw [Text.pieces, hchars, hsuffix, Text.piecesAfter_flatMap hlines, List.map_append, List.map_map]
  simp only [Function.comp_def, String.ofList_toList]
  rfl

theorem unframed_frames (events : List StreamEvent) :
    unframed (String.join (events.map frame)) = some (events.map fun e => e.toJson.toText) := by
  have hfilled : ∀ s ∈ events.map fun e => framePrefix ++ e.toJson.toText, s ≠ "" := by
    intro s hs
    obtain ⟨e, -, rfl⟩ := List.mem_map.mp hs
    intro hempty
    have hchars := congrArg String.toList hempty
    simp [framePrefix] at hchars
  have hstripped : (events.map fun e => framePrefix ++ e.toJson.toText).mapM (Text.behind? framePrefix) =
      some (events.map fun e => e.toJson.toText) := by
    clear hfilled
    induction events with
    | nil => rfl
    | cons e events ih => rw [List.map_cons, List.mapM_cons, Text.behind?_append, ih]; rfl
  rw [unframed, pieces_frames, List.filter_append, List.filter_eq_self.mpr (by simpa using hfilled)]
  simpa using hstripped

/-- Whatever the events hold, each of them is written, and its frame is the prefix, its text on one line and the
suffix. A client that splits the frames that come one behind the other gets these texts in their order. -/
theorem frames_are_split_into_their_texts (events : List StreamEvent) :
    (∀ e ∈ events, e.datum.write = .ok e.toJson ∧ e.sent = e.frame ∧
      e.frame = framePrefix ++ e.toJson.toText ++ frameSuffix ∧
      ∀ c ∈ e.toJson.toText.toList, 0x20 ≤ c.toNat) ∧
    Text.pieces (String.join (events.map frame)) frameSuffix =
      events.map (fun e => framePrefix ++ e.toJson.toText) ++ [""] ∧
    unframed (String.join (events.map frame)) = some (events.map fun e => e.toJson.toText) := by
  refine ⟨fun e _ => ⟨e.write_datum, e.sent_eq_frame, rfl, e.oneLine_text⟩, pieces_frames events, ?_⟩
  exact unframed_frames events

end StreamEvent

end SeriesStream
