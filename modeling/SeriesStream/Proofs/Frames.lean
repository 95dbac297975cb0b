import SeriesStream.Proofs.Json.Inverse
import SeriesStream.Wire

namespace SeriesStream

open Json (Decoder)
open Json.Decoder (Field)

/-- A clock shows the bounds and the step. -/
def Window.Clocked (w : Window) : Prop := Instant.Shown w.start ∧ Instant.Shown w.stop ∧ Instant.Shown w.step

theorem TagSet.ofJson_toJson (t : TagSet) : TagSet.ofJson t.toJson = .ok t := by
  refine Decoder.map_ofFields (fun k => k) Json.ofString ?_ ?_
  · exact fun e _ => Decoder.stringKey_ofString e.1
  · exact fun e _ => Decoder.string_ofString e.2

theorem Window.ofJson_toJson {w : Window} (h : w.Clocked) : Window.ofJson w.toJson = .ok w := by
  obtain ⟨hstart, hstop, hstep⟩ := h
  have hfields : Decoder.fields [.of "start" Decoder.instant, .of "end" Decoder.instant, .of "step" Decoder.instant]
      w.toJson = _ := Decoder.fields_ofFields [(.of "start" Decoder.instant, .ofInt w.start),
    (.of "end" Decoder.instant, .ofInt w.stop), (.of "step" Decoder.instant, .ofInt w.step)] (by simp)
  rw [Window.ofJson, hfields]
  simp [Decoder.required, List.lookup_cons, Decoder.instant_ofInt, hstart, hstop, hstep, Except.map, bind,
    Except.bind, pure, Except.pure]

/-- A printed result is read back up to its samples, which are left to their own reader. -/
theorem WindowSeries.ofJsonWith_toJson {s : WindowSeries} (h : s.window.Clocked) (d : Decoder Samples) :
    ofJsonWith d s.toJson = (d s.values.toJson).map fun values => { s with values } := by
  have hfields : Decoder.fields [.of "expression" Decoder.string, .of "window" Window.ofJson,
      .of "tags" TagSet.ofJson, .of "values" d] s.toJson = _ :=
    Decoder.fields_ofFields [(.of "expression" Decoder.string, .ofString s.expression),
      (.of "window" Window.ofJson, s.window.toJson), (.of "tags" TagSet.ofJson, s.tags.toJson),
      (.of "values" d, s.values.toJson)] (by simp)
  have hchecks := And.intro (Window.ofJson_toJson h) (TagSet.ofJson_toJson s.tags)
  rw [ofJsonWith, hfields]
  cases hd : d s.values.toJson with
  | error e => simp [Decoder.string_ofString, hchecks, hd, Except.map, bind, Except.bind]
  | ok values =>
    simp [Decoder.required, List.lookup_cons, Decoder.string_ofString, hchecks, hd, Except.map, bind, Except.bind,
      pure, Except.pure]

namespace Samples

theorem ofBuffered_empty {s : Samples} (h : s.isEmpty = true) : ofBuffered s.toJson = .ok s := by
  have hentries : s.entries = [] := List.isEmpty_iff.mp h
  exact Decoder.map_ofFields (fun t => toString t) Json.ofFloat (by simp [hentries]) (by simp [hentries])

theorem ofBuffered_filled {s : Samples} (h : s.isEmpty = false) : ofBuffered s.toJson = .error .misshapen := by
  cases hentries : s.entries with
  | nil => simp [OrderedMap.isEmpty, hentries] at h
  | cons e rest =>
    simp only [toJson, ofBuffered, Decoder.map, Json.ofFields, hentries, List.map_cons, List.mapM_cons]
    rfl

end Samples

theorem WindowSeries.printable (s : WindowSeries) : s.toJson.Printable := by
  have htags : s.tags.toJson.Printable := by
    refine Json.printable_ofFields fun f hf => ?_
    obtain ⟨e, -, rfl⟩ := List.mem_map.mp hf
    exact Json.printable_ofString e.2
  have hvalues : s.values.toJson.Printable := by
    refine Json.printable_ofFields fun f hf => ?_
    obtain ⟨e, -, rfl⟩ := List.mem_map.mp hf
    exact Json.printable_ofFloat e.2
  have hwindow : s.window.toJson.Printable := Json.printable_ofFields (by simp [Json.printable_ofInt])
  exact Json.printable_ofFields (by simp [Json.printable_ofString, htags, hvalues, hwindow])

theorem WindowSeries.isSound {s : WindowSeries} (h : s.window.Clocked) (empty : s.values.isEmpty = true)
    (depth : Nat) : s.toJson.isSound (depth + 2) = true := by
  obtain ⟨hstart, hstop, hstep⟩ := h
  have hentries : s.values.entries = [] := List.isEmpty_iff.mp empty
  simp [toJson, TagSet.toJson, Samples.toJson, Window.toJson, Json.isSound_ofFields, Json.isSound_ofString,
    Json.isSound_ofInt, hstart, hstop, hstep, hentries]

namespace StreamEvent

/-- A clock shows the windows of all results. -/
def Clocked (e : StreamEvent) : Prop := ∀ results, e = data results → ∀ s ∈ results, s.window.Clocked

/-- Some result of the event has a sample. -/
def HasSamples (e : StreamEvent) : Prop := ∃ results, e = data results ∧ ∃ s ∈ results, s.values.isEmpty = false

theorem printable (e : StreamEvent) : e.toJson.Printable := by
  cases e with
  | info message => exact Json.printable_ofFields (by simp [Json.printable_ofString])
  | data results =>
    have hresults : (Json.array (results.map WindowSeries.toJson)).Printable :=
      Json.printable_array (by simp [WindowSeries.printable])
    exact Json.printable_ofFields (by simp [Json.printable_ofString, hresults])
  | error message => exact Json.printable_ofFields (by simp [Json.printable_ofString])
  | close => exact Json.printable_ofFields (by simp [Json.printable_ofString])

theorem isSound {e : StreamEvent} (h : e.Clocked) (empty : ¬e.HasSamples) : e.toJson.isSound depthMax = true := by
  cases e with
  | info message => simp [toJson, depthMax, Json.isSound_ofFields, Json.isSound_ofString]
  | data results =>
    have hall : ∀ s ∈ results, s.toJson.isSound 125 = true := by
      intro s hs
      cases hempty : s.values.isEmpty with
      | true => exact WindowSeries.isSound (h results rfl s hs) hempty 123
      | false => exact absurd ⟨results, rfl, s, hs, hempty⟩ empty
    simpa [toJson, depthMax, Json.isSound_ofFields, Json.isSound_ofString, Json.isSound_array] using hall
  | error message => simp [toJson, depthMax, Json.isSound_ofFields, Json.isSound_ofString]
  | close => simp [toJson, depthMax, Json.isSound_ofFields, Json.isSound_ofString]

theorem splitTag_ofFields (tag : Json) (fields : List (String × Json)) (h : ∀ f ∈ fields, f.1 ≠ "type") :
    splitTag (.ofFields (("type", tag) :: fields)) = some (tag, .ofFields fields) := by
  have htag : (Json.Quoted.ofString "type").string? = some "type" := Json.Quoted.string?_ofString "type"
  have hname : ∀ m ∈ fields.map fun f => (Json.Quoted.ofString f.1, f.2), m.1.string? ≠ some "type" := by
    intro m hm
    obtain ⟨f, hf, rfl⟩ := List.mem_map.mp hm
    rw [Json.Quoted.string?_ofString]
    exact fun heq => h f hf (Option.some.inj heq)
  rw [Json.ofFields, List.map_cons, splitTag]
  generalize hmembers : fields.map (fun f => (Json.Quoted.ofString f.1, f.2)) = members at hname ⊢
  have hnone : members.filter (fun m => decide (m.1.string? = some "type")) = [] := by
    simpa only [List.filter_eq_nil_iff, decide_eq_true_eq] using hname
  have hall : members.filter (not ∘ fun m => decide (m.1.string? = some "type")) = members := by
    rw [List.filter_eq_self]
    intro m hm
    simp [hname m hm]
  simp [List.partition_eq_filter_filter, htag, hnone, hall, Json.ofFields, hmembers]

/-- An event of data is read back as far as its results are. -/
theorem ofJson_data {results : List WindowSeries} (sound : (data results).toJson.isSound depthMax = true) :
    ofJson (data results).toJson =
      Decoder.list (WindowSeries.ofJsonWith Samples.ofBuffered) (.array (results.map WindowSeries.toJson)) >>=
        fun read => .ok (data read) := by
  have hsplit := splitTag_ofFields (.ofString "data") [("results", .array (results.map WindowSeries.toJson))] (by simp)
  rw [← Decoder.field_ofFields "results" (Decoder.list (WindowSeries.ofJsonWith Samples.ofBuffered)), bind_assoc]
  unfold ofJson
  rw [toJson] at sound ⊢
  simp only [sound, hsplit]
  rw [Decoder.string_ofString]
  rfl

/-- An event without samples is read back from its own document. -/
theorem ofJson_empty {e : StreamEvent} (h : e.Clocked) (empty : ¬e.HasSamples) : ofJson e.toJson = .ok e := by
  have hsound := isSound h empty
  cases e with
  | info message =>
    have hsplit := splitTag_ofFields (.ofString "info") [("message", .ofString message)] (by simp)
    have hmessage := Decoder.field_ofFields "message" Decoder.string (.ofString message)
    unfold ofJson
    rw [toJson] at hsound ⊢
    simp only [hsound, hsplit, hmessage, Decoder.string_ofString]
    rfl
  | data results =>
    have hresults : ∀ s ∈ results, WindowSeries.ofJsonWith Samples.ofBuffered s.toJson = .ok s := by
      intro s hs
      rw [WindowSeries.ofJsonWith_toJson (h results rfl s hs)]
      cases hempty : s.values.isEmpty with
      | true =>
        rw [Samples.ofBuffered_empty hempty]
        rfl
      | false => exact absurd ⟨results, rfl, s, hs, hempty⟩ empty
    rw [ofJson_data hsound, Decoder.list_ok hresults]
    rfl
  | error message =>
    have hsplit := splitTag_ofFields (.ofString "error") [("message", .ofString message)] (by simp)
    have hmessage := Decoder.field_ofFields "message" Decoder.string (.ofString message)
    unfold ofJson
    rw [toJson] at hsound ⊢
    simp only [hsound, hsplit, hmessage, Decoder.string_ofString]
    rfl
  | close =>
    have hsplit := splitTag_ofFields (.ofString "close") [] (by simp)
    unfold ofJson
    rw [toJson] at hsound ⊢
    simp only [hsound, hsplit, Decoder.string_ofString]
    rfl

/-- One sample makes an event that is not read back from its own document. -/
theorem ofJson_sampled {e : StreamEvent} (h : e.Clocked) (sampled : e.HasSamples) :
    ∃ failure, ofJson e.toJson = .error failure := by
  obtain ⟨results, rfl, s, hs, hfilled⟩ := sampled
  cases hsound : (data results).toJson.isSound depthMax with
  | false =>
    refine ⟨.malformed, ?_⟩
    unfold ofJson
    simp only [hsound]
    rfl
  | true =>
    have hseries : WindowSeries.ofJsonWith Samples.ofBuffered s.toJson = .error .misshapen := by
      rw [WindowSeries.ofJsonWith_toJson (h results rfl s hs), Samples.ofBuffered_filled hfilled]
      rfl
    obtain ⟨failure, hfailure⟩ := Decoder.list_error (List.mem_map_of_mem hs) hseries
    refine ⟨failure, ?_⟩
    rw [ofJson_data hsound, hfailure]
    rfl

theorem text_of_frame {e : StreamEvent} {text : String} (h : e.frame = framePrefix ++ text ++ frameSuffix) :
    text = e.toJson.toText := by
  have hchars := congrArg String.toList h
  simp only [frame, String.toList_append, List.append_assoc] at hchars
  have hsame := List.append_cancel_right (List.append_cancel_left hchars)
  exact String.toList_inj.mp hsame.symm

/-- What stands between prefix and suffix of a frame is read back as the event that was sent, unless one of its
results has a sample: then it is refused. -/
theorem frames_are_read_back_without_samples {e : StreamEvent} (h : e.Clocked) {text : String}
    (framed : e.frame = framePrefix ++ text ++ frameSuffix) :
    (¬e.HasSamples → Decoder.whole ofJson (Glyph.ofString text) = .ok e) ∧
      (e.HasSamples → ∃ failure, Decoder.whole ofJson (Glyph.ofString text) = .error failure) := by
  rw [text_of_frame framed, Decoder.whole_toText ofJson e.printable]
  exact ⟨ofJson_empty h, ofJson_sampled h⟩

/-- One series of no tags on the first second, with these samples. -/
def firstSecond (values : Samples) : StreamEvent := data [⟨"e", ⟨0, 1000, 1000⟩, .empty, values⟩]

theorem firstSecond_clocked (values : Samples) : (firstSecond values).Clocked := by
  intro results heq s hs
  cases heq
  obtain rfl := List.mem_singleton.mp hs
  have hclocked : Window.Clocked ⟨0, 1000, 1000⟩ := by
    unfold Window.Clocked
    decide
  exact hclocked

/-- The text of that event around its samples. -/
def firstSecondText (values : String) : String :=
  "\x7b\"type\":\"data\",\"results\":[\x7b\"expression\":\"e\",\"window\":\x7b\"start\":0,\"end\":1000,\"step\":1000\x7d," ++
    "\"tags\":\x7b\x7d,\"values\":" ++ values ++ "\x7d]\x7d"

theorem empty_frame_is_read_back :
    (firstSecond .empty).Clocked ∧ ¬(firstSecond .empty).HasSamples ∧
      (firstSecond .empty).frame = framePrefix ++ firstSecondText "\x7b\x7d" ++ frameSuffix ∧
      Decoder.whole ofJson (Glyph.ofString (firstSecondText "\x7b\x7d")) = .ok (firstSecond .empty) := by
  have hframe : (firstSecond .empty).frame = framePrefix ++ firstSecondText "\x7b\x7d" ++ frameSuffix := by
    decide +kernel
  have hempty : ¬(firstSecond .empty).HasSamples := by
    rintro ⟨results, heq, s, hs, hfilled⟩
    cases heq
    obtain rfl := List.mem_singleton.mp hs
    cases hfilled
  have hclocked := firstSecond_clocked .empty
  exact ⟨hclocked, hempty, hframe, (frames_are_read_back_without_samples hclocked hframe).1 hempty⟩

theorem sampled_frame_is_refused :
    Decoder.float (Json.ofFloat 1.5) = .ok 1.5 ∧ (firstSecond (OrderedMap.ofList [(0, 1.5)])).Clocked ∧
      (firstSecond (OrderedMap.ofList [(0, 1.5)])).frame =
        framePrefix ++ firstSecondText "\x7b\"0\":1.5\x7d" ++ frameSuffix ∧
      ∃ failure, Decoder.whole ofJson (Glyph.ofString (firstSecondText "\x7b\"0\":1.5\x7d")) = .error failure := by
  have hframe : (firstSecond (OrderedMap.ofList [(0, 1.5)])).frame =
      framePrefix ++ firstSecondText "\x7b\"0\":1.5\x7d" ++ frameSuffix := by
    decide +kernel
  have hclocked := firstSecond_clocked (OrderedMap.ofList [(0, 1.5)])
  refine ⟨by rfl, hclocked, hframe, ?_⟩
  rw [text_of_frame hframe, Decoder.whole_toText ofJson (printable _)]
  exact ofJson_sampled hclocked ⟨_, rfl, _, List.mem_singleton_self _, rfl⟩

end StreamEvent

end SeriesStream
