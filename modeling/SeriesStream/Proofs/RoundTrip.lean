import SeriesStream.Proofs.Frames

namespace SeriesStream

open Json (Decoder)
open Json.Decoder (Field)

namespace Json

theorem Numeral.render_ofInt (t : Int) : (Numeral.ofInt t).render = (toString t).toList := by
  rw [Numeral.render_eq]
  cases t with
  | ofNat n =>
    have hdigits : (toString (Int.ofNat n)).toList = Nat.toDigits 10 n := Nat.toList_repr
    rw [hdigits]
    simp [ofInt, exponentText]
  | negSucc n =>
    have hdigits : (toString (Int.negSucc n)).toList = '-' :: Nat.toDigits 10 (n + 1) := by
      rw [← Nat.toList_repr]
      exact String.toList_append
    have hneg : Int.negSucc n < 0 := Int.negSucc_lt_zero n
    rw [hdigits]
    simp [ofInt, exponentText, hneg]

theorem escape?_of_isDigit {c : Char} (h : c.isDigit = true) : escape? c = none := by
  have hrange : 48 ≤ c.toNat ∧ c.toNat ≤ 57 := by
    simpa [Char.isDigit, UInt32.le_iff_toNat_le] using h
  have hquote : c ≠ '"' := by
    rintro rfl
    simp at h
  have hslash : c ≠ '\\' := by
    rintro rfl
    simp at h
  unfold escape?
  rw [if_neg hquote, if_neg hslash, if_neg (by omega)]

namespace Decoder

/-- A value is read from its own text, and what is read is written as the same text again. -/
def ReadBack {α : Type} (d : Decoder α) (form : α → Json) (a : α) : Prop :=
  ∃ b, whole d (Glyph.ofString (form a).toText) = .ok b ∧ b = a ∧ (form b).toText = (form a).toText

theorem ReadBack.of_document {α : Type} {d : Decoder α} {form : α → Json} {a : α} (printable : (form a).Printable)
    (h : d (form a) = .ok a) : ReadBack d form a := by
  refine ⟨a, ?_, rfl, rfl⟩
  rw [whole_toText d printable]
  exact h

theorem plain_of_instant (t : Int) : (Quoted.ofString (toString t)).plain = true := by
  have hchars : ∀ c ∈ (Numeral.ofInt t).render, escape? c = none := by
    intro c hc
    rw [Numeral.render_eq] at hc
    simp only [Numeral.ofInt, List.isEmpty_nil, if_true, Numeral.exponentText, List.append_nil,
      List.mem_append] at hc
    rcases hc with hsign | hdigits
    · obtain rfl : c = '-' := (List.mem_ite_nil_right.mp hsign).2 |> List.mem_singleton.mp
      decide
    · exact escape?_of_isDigit (Numeral.isDigit_toDigits c hdigits)
  rw [Numeral.render_ofInt] at hchars
  simp only [Quoted.ofString, List.all_eq_true, Option.isNone_iff_eq_none]
  exact hchars

/-- A timestamp is read back from the quotes it stands in as a key. -/
theorem instantKey_ofString {t : Int} (h : Instant.Shown t) :
    instantKey (Quoted.ofString (toString t)) = .ok t := by
  have hscan := Numeral.scan_append (Numeral.wellFormed_ofInt t) stops_nil
  rw [List.append_nil, Numeral.render_ofInt] at hscan
  have hcontent : (Quoted.ofString (toString t)).content = (toString t).toList.map some := rfl
  unfold instantKey
  rw [hcontent, hscan]
  simp only [plain_of_instant, if_true]
  exact instant_ofInt h

end Decoder

end Json

/-- The number's decimal is read back as the same number. One that is not finite has none and is not. -/
def Json.Decoder.ReadsFloat (x : Float) : Prop :=
  Decoder.whole Decoder.float (Glyph.ofString (Json.ofFloat x).toText) = .ok x

namespace Samples

/-- A clock shows the timestamps, and the decimals of the values are read back. -/
def Readable (s : Samples) : Prop := ∀ e ∈ s.entries, Instant.Shown e.1 ∧ Decoder.ReadsFloat e.2

theorem ofJson_toJson {s : Samples} (h : s.Readable) : ofJson s.toJson = .ok s := by
  refine Decoder.map_ofFields (fun t => toString t) Json.ofFloat ?_ ?_
  · intro e he
    exact Decoder.instantKey_ofString (h e he).1
  · intro e he
    have hread := (h e he).2
    unfold Decoder.ReadsFloat at hread
    rwa [Decoder.whole_toText _ (Json.printable_ofFloat e.2)] at hread

theorem printable (s : Samples) : s.toJson.Printable := by
  refine Json.printable_ofFields fun f hf => ?_
  obtain ⟨e, -, rfl⟩ := List.mem_map.mp hf
  exact Json.printable_ofFloat e.2

end Samples

theorem TagSet.printable (t : TagSet) : t.toJson.Printable := by
  refine Json.printable_ofFields fun f hf => ?_
  obtain ⟨e, -, rfl⟩ := List.mem_map.mp hf
  exact Json.printable_ofString e.2

theorem Window.printable (w : Window) : w.toJson.Printable :=
  Json.printable_ofFields (by simp [Json.printable_ofInt])

namespace TimeSeries

theorem printable (s : TimeSeries) : s.toJson.Printable :=
  Json.printable_ofFields (by simp [TagSet.printable, Samples.printable])

theorem ofJson_toJson {s : TimeSeries} (h : s.values.Readable) : ofJson s.toJson = .ok s := by
  have hfields : Decoder.fields [.of "tags" TagSet.ofJson, .of "values" Samples.ofJson] s.toJson = _ :=
    Decoder.fields_ofFields [(.of "tags" TagSet.ofJson, s.tags.toJson),
      (.of "values" Samples.ofJson, s.values.toJson)] (by simp)
  have htags := TagSet.ofJson_toJson s.tags
  have hvalues := Samples.ofJson_toJson h
  rw [ofJson, hfields]
  simp [Decoder.required, List.lookup_cons, htags, hvalues, Except.map, bind, Except.bind, pure, Except.pure]

end TimeSeries

theorem WindowSeries.ofJson_toJson {s : WindowSeries} (clocked : s.window.Clocked) (h : s.values.Readable) :
    ofJson s.toJson = .ok s := by
  rw [ofJson, ofJsonWith_toJson clocked, Samples.ofJson_toJson h]
  rfl

namespace FetchRequest

theorem printable (r : FetchRequest) : r.toJson.Printable := by
  have hqueries : (Json.array (r.queries.map BaseQuery.toJson)).Printable := by
    refine Json.printable_array fun item hitem => ?_
    obtain ⟨q, -, rfl⟩ := List.mem_map.mp hitem
    exact Json.printable_ofString q
  exact Json.printable_ofFields (by simp [hqueries, Window.printable])

theorem ofJson_toJson {r : FetchRequest} (h : r.window.Clocked) : ofJson r.toJson = .ok r := by
  have hfields : Decoder.fields [.of "queries" (Decoder.list BaseQuery.ofJson), .of "window" Window.ofJson]
      r.toJson = _ :=
    Decoder.fields_ofFields [(.of "queries" (Decoder.list BaseQuery.ofJson), .array (r.queries.map BaseQuery.toJson)),
      (.of "window" Window.ofJson, r.window.toJson)] (by simp)
  have hqueries : Decoder.list BaseQuery.ofJson (.array (r.queries.map BaseQuery.toJson)) = .ok r.queries :=
    Decoder.list_ok fun q _ => Decoder.string_ofString q
  have hwindow := Window.ofJson_toJson h
  rw [ofJson, hfields]
  simp [Decoder.required, List.lookup_cons, hqueries, hwindow, Except.map, bind, Except.bind, pure, Except.pure]

end FetchRequest

/-- Everything that is stored, asked for or sent is read back from its text, whatever its strings are, as long as a
clock shows its instants and the decimals of its numbers are read back. -/
theorem texts_are_read_back :
    (∀ t : TagSet, Decoder.ReadBack TagSet.ofJson TagSet.toJson t) ∧
      (∀ s : TimeSeries, s.values.Readable → Decoder.ReadBack TimeSeries.ofJson TimeSeries.toJson s) ∧
      (∀ q : BaseQuery, Decoder.ReadBack BaseQuery.ofJson BaseQuery.toJson q) ∧
      (∀ w : Window, w.Clocked → Decoder.ReadBack Window.ofJson Window.toJson w) ∧
      (∀ s : WindowSeries, s.window.Clocked → s.values.Readable →
        Decoder.ReadBack WindowSeries.ofJson WindowSeries.toJson s) ∧
      ∀ r : FetchRequest, r.window.Clocked → Decoder.ReadBack FetchRequest.ofJson FetchRequest.toJson r := by
  refine ⟨?_, ?_, ?_, ?_, ?_, ?_⟩
  · intro t
    exact .of_document t.printable (TagSet.ofJson_toJson t)
  · intro s h
    exact .of_document s.printable (TimeSeries.ofJson_toJson h)
  · intro q
    exact .of_document (Json.printable_ofString q) (Decoder.string_ofString q)
  · intro w h
    exact .of_document w.printable (Window.ofJson_toJson h)
  · intro s clocked h
    exact .of_document s.printable (WindowSeries.ofJson_toJson clocked h)
  · intro r h
    exact .of_document r.printable (FetchRequest.ofJson_toJson h)

/-- A result from the first to the last instant of a clock, with characters that are escaped and some that are not. -/
def WindowSeries.outermost : WindowSeries :=
  ⟨"a\"\n", ⟨Instant.earliest, Instant.latest, 1⟩, TagSet.ofPairs [("é", "\x01")],
    OrderedMap.ofList [(Instant.latest, 1e-7), (Instant.earliest, -0.25)]⟩

def WindowSeries.outermostText : String :=
  "\x7b\"expression\":\"a\\\"\\n\",\"window\":\x7b\"start\":-9223372036854775808,\"end\":9223372036854775807," ++
    "\"step\":1\x7d,\"tags\":\x7b\"é\":\"\\u0001\"\x7d,\"values\":" ++
    "\x7b\"-9223372036854775808\":-0.25,\"9223372036854775807\":1e-7\x7d\x7d"

theorem WindowSeries.outermost_readable : outermost.values.Readable := by
  have hsmall : Decoder.ReadsFloat 1e-7 := by
    rw [Decoder.ReadsFloat, Decoder.whole_toText _ (Json.printable_ofFloat _)]
    rfl
  have hnegative : Decoder.ReadsFloat (-0.25) := by
    rw [Decoder.ReadsFloat, Decoder.whole_toText _ (Json.printable_ofFloat _)]
    rfl
  have hentries : outermost.values.entries = [(Instant.earliest, -0.25), (Instant.latest, 1e-7)] := rfl
  unfold Samples.Readable
  rw [hentries]
  simp [hsmall, hnegative, Instant.Shown, Instant.earliest, Instant.latest]

theorem outermost_series_is_read_back :
    WindowSeries.outermost.window.Clocked ∧ WindowSeries.outermost.values.Readable ∧
      WindowSeries.outermost.toJson.toText = WindowSeries.outermostText ∧
      Decoder.whole WindowSeries.ofJson (Glyph.ofString WindowSeries.outermostText) = .ok WindowSeries.outermost := by
  have hclocked : WindowSeries.outermost.window.Clocked := by
    unfold Window.Clocked
    decide
  have hreadable := WindowSeries.outermost_readable
  have htext : WindowSeries.outermost.toJson.toText = WindowSeries.outermostText := by
    decide +kernel
  obtain ⟨-, -, -, -, hseries, -⟩ := texts_are_read_back
  obtain ⟨read, hread, rfl, -⟩ := hseries WindowSeries.outermost hclocked hreadable
  rw [htext] at hread
  exact ⟨hclocked, hreadable, htext, hread⟩

end SeriesStream
