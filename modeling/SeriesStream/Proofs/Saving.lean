import SeriesStream.Proofs.Glyph
import SeriesStream.Proofs.Toml.Document
import SeriesStream.Settings.Environment

namespace SeriesStream

open Toml (Node integerHigh)

namespace Toml.Node

theorem natural?_of_lt {bits n : Nat} (h : n < Nat.pow 2 bits) : (integer n).natural? bits = some n :=
  if_pos ⟨Int.natCast_nonneg n, Int.ofNat_lt.mpr h⟩

theorem texts?_strings (items : List String) : texts? (.array (items.map .string)) = some items := by
  show (items.map string).mapM text? = some items
  induction items with
  | nil => rfl
  | cons s items ih => simp [ih, text?]

theorem field?_of_lookup {α : Type} {fields : Entries} {name : String} {v : Node} (h : fields.lookup name = some v)
    (decode : Node → Option α) (standard : α) : field? fields name decode standard = decode v := by
  rw [field?, h]

end Toml.Node

namespace ServerSettings

/-- The settings as a table. -/
def table (s : ServerSettings) : Toml.Table where
  key := "server"
  pairs :=
    [⟨addressKey, _, _, by decide, Toml.spells_text s.listenAddress⟩,
      ⟨logLevelKey, _, _, by decide, Toml.spells_text s.logLevel⟩,
      ⟨originsKey, _, _, by decide, Toml.spells_texts s.corsOrigins⟩]
  bare := by decide
  distinct := by
    show [addressKey, logLevelKey, originsKey].Nodup
    decide

theorem toToml_eq (s : ServerSettings) : s.toToml = s.table.text := rfl

theorem ofNode_table (s : ServerSettings) : ofNode s.table.entry.2 = some s := by
  unfold ofNode
  refine Option.bind_eq_some_iff.mpr ⟨s.table.pairs.map Toml.Pair.entry, rfl, ?_⟩
  have haddress : (s.table.pairs.map Toml.Pair.entry).lookup addressKey = some (.string s.listenAddress) := rfl
  have hlevel : (s.table.pairs.map Toml.Pair.entry).lookup logLevelKey = some (.string s.logLevel) := rfl
  have horigins : (s.table.pairs.map Toml.Pair.entry).lookup originsKey =
      some (.array (s.corsOrigins.map .string)) := rfl
  simp [Node.field?_of_lookup haddress, Node.field?_of_lookup hlevel, Node.field?_of_lookup horigins, Node.text?,
    Node.texts?_strings]

end ServerSettings

namespace StreamingSettings

/-- Both times fit into the integers of a document. -/
def Writable (s : StreamingSettings) : Prop :=
  (s.heartbeat.toNat : Int) ≤ integerHigh ∧ (s.timeout.toNat : Int) ≤ integerHigh

theorem multiplier_le (s : StreamingSettings) : (s.multiplier.toNat : Int) ≤ integerHigh := by
  have hbits := s.multiplier.toNat_lt
  unfold integerHigh
  omega

def table (s : StreamingSettings) (writable : s.Writable) : Toml.Table where
  key := "streaming"
  pairs :=
    [⟨heartbeatKey, _, _, by decide, Toml.spells_nat writable.1⟩,
      ⟨timeoutKey, _, _, by decide, Toml.spells_nat writable.2⟩,
      ⟨multiplierKey, _, _, by decide, Toml.spells_nat s.multiplier_le⟩,
      ⟨messageKey, _, _, by decide, Toml.spells_text s.message⟩]
  bare := by decide
  distinct := by
    show [heartbeatKey, timeoutKey, multiplierKey, messageKey].Nodup
    decide

theorem toToml?_of_writable {s : StreamingSettings} (writable : s.Writable) :
    s.toToml? = some (s.table writable).text := by
  simp only [toToml?, Toml.writeNat?, if_pos writable.1, if_pos writable.2, if_pos s.multiplier_le]
  rfl

theorem toToml?_of_not_writable {s : StreamingSettings} (h : ¬s.Writable) : s.toToml? = none := by
  unfold Writable at h
  by_cases hheartbeat : (s.heartbeat.toNat : Int) ≤ integerHigh
  · have htimeout : ¬(s.timeout.toNat : Int) ≤ integerHigh := fun htimeout => h ⟨hheartbeat, htimeout⟩
    simp [toToml?, Toml.writeNat?, hheartbeat, htimeout]
  · simp [toToml?, Toml.writeNat?, hheartbeat]

theorem ofNode_table {s : StreamingSettings} (writable : s.Writable) : ofNode (s.table writable).entry.2 = some s := by
  have hwide (n : UInt64) : ((Node.integer n.toNat).natural? 64).map UInt64.ofNat = some n := by
    rw [Node.natural?_of_lt n.toNat_lt, Option.map_some, UInt64.ofNat_toNat]
  have hnarrow (n : UInt32) : ((Node.integer n.toNat).natural? 32).map UInt32.ofNat = some n := by
    rw [Node.natural?_of_lt n.toNat_lt, Option.map_some, UInt32.ofNat_toNat]
  unfold ofNode
  refine Option.bind_eq_some_iff.mpr ⟨(s.table writable).pairs.map Toml.Pair.entry, rfl, ?_⟩
  refine Option.bind_eq_some_iff.mpr ⟨s.heartbeat, ?_, Option.bind_eq_some_iff.mpr ⟨s.timeout, ?_,
    Option.bind_eq_some_iff.mpr ⟨s.multiplier, ?_, Option.bind_eq_some_iff.mpr ⟨s.message, ?_, rfl⟩⟩⟩⟩
  · rw [Node.field?_of_lookup (v := .integer s.heartbeat.toNat) rfl]
    exact hwide s.heartbeat
  · rw [Node.field?_of_lookup (v := .integer s.timeout.toNat) rfl]
    exact hwide s.timeout
  · rw [Node.field?_of_lookup (v := .integer s.multiplier.toNat) rfl]
    exact hnarrow s.multiplier
  · rw [Node.field?_of_lookup (v := .string s.message) rfl]
    rfl

end StreamingSettings

namespace Settings

theorem toToml_of_writable {s : Settings} (writable : s.streaming.Writable) :
    s.toToml = .ok (String.ofList (s.server.table.text ++ '\n' :: (s.streaming.table writable).text)) := by
  rw [toToml, StreamingSettings.toToml?_of_writable writable, ServerSettings.toToml_eq]

theorem toToml_of_not_writable {s : Settings} (h : ¬s.streaming.Writable) : s.toToml = .error .unwritable := by
  rw [toToml, StreamingSettings.toToml?_of_not_writable h]

theorem toToml_ok_iff {s : Settings} : (∃ text, s.toToml = .ok text) ↔ s.streaming.Writable := by
  constructor
  · rintro ⟨text, h⟩
    by_contra hbound
    rw [toToml_of_not_writable hbound] at h
    cases h
  · exact fun writable => ⟨_, toToml_of_writable writable⟩

/-- The document that settings are written in describes them. -/
theorem ofToml?_of_toToml {s : Settings} {text : String} (h : s.toToml = .ok text) : ofToml? text = some s := by
  have writable := toToml_ok_iff.mp ⟨text, h⟩
  rw [toToml_of_writable writable] at h
  obtain rfl := Except.ok.inj h
  have hdistinct : s.server.table.key ≠ (s.streaming.table writable).key := by
    show "server" ≠ "streaming"
    decide
  unfold ofToml?
  refine Option.bind_eq_some_iff.mpr ⟨_, Toml.read_tables hdistinct, ?_⟩
  have hserver : List.lookup "server" [s.server.table.entry, (s.streaming.table writable).entry] =
      some s.server.table.entry.2 := rfl
  have hstreaming : List.lookup "streaming" [s.server.table.entry, (s.streaming.table writable).entry] =
      some (s.streaming.table writable).entry.2 := rfl
  rw [Node.field?_of_lookup hserver, Node.field?_of_lookup hstreaming, ServerSettings.ofNode_table,
    StreamingSettings.ofNode_table]
  rfl

theorem override_of_unset (s : Settings) {e : Environment} (unset : ∀ name ∈ Environment.names, e.var? name = none) :
    s.override e = .ok s := by
  simp only [Environment.names, List.forall_mem_cons] at unset
  obtain ⟨-, haddress, hlevel, hheartbeat, htimeout, hmultiplier, -⟩ := unset
  simp [override, Environment.count, haddress, hlevel, hheartbeat, htimeout, hmultiplier, bind, Except.bind, pure,
    Except.pure]

/-- What is loaded from a written file is checked, and nothing else. -/
theorem load_of_toToml {s : Settings} {text : String} (h : s.toToml = .ok text) {e : Environment} {path : String}
    (file : e.file? path = some text.toUTF8.data.toList)
    (unset : ∀ name ∈ Environment.names, e.var? name = none) : load e path = s.validated := by
  have htext : e.text path = .ok text := by
    rw [Environment.text, file]
    simp only [Glyph.text?_ofBytes]
  simp only [load, htext, bind, Except.bind, ofToml?_of_toToml h, override_of_unset s unset]

/-- Settings are the same after they were written down and loaded. Only times that no document can hold are not
written, and only settings that break a rule are not loaded. -/
theorem survive_writing_and_loading (s : Settings) :
    ((∃ text, s.toToml = .ok text) ↔
      (s.streaming.heartbeat.toNat : Int) ≤ integerHigh ∧ (s.streaming.timeout.toNat : Int) ≤ integerHigh) ∧
    (∀ failure, s.toToml = .error failure → failure.name = "Serialization") ∧
    ∀ text, s.toToml = .ok text →
      ofToml text = .ok s ∧
      ∀ (e : Environment) (path : String), e.file? path = some text.toUTF8.data.toList →
        (∀ name ∈ Environment.names, e.var? name = none) →
        (load e path = .ok s ↔ s.fault? = none) ∧
        ∀ fault, s.fault? = some fault →
          load e path = .error (.settings fault) ∧ (Failure.settings fault).name = "Configuration" := by
  refine ⟨toToml_ok_iff, ?_, ?_⟩
  · intro failure h
    by_cases writable : s.streaming.Writable
    · rw [toToml_of_writable writable] at h
      cases h
    · rw [toToml_of_not_writable writable] at h
      obtain rfl := Except.error.inj h
      rfl
  · intro text h
    refine ⟨by rw [ofToml, ofToml?_of_toToml h], ?_⟩
    intro e path file unset
    rw [load_of_toToml h file unset, validated]
    cases hfault : s.fault? with
    | none => simp
    | some fault => simp [Failure.name]

/-- Each string here is written in another form. -/
theorem strings_of_all_forms_survive :
    let s : Settings :=
      ⟨⟨"localhost:80", "\"info\"", ["a\n'b'", "'''\u0001\""]⟩, ⟨1000, 2000, 60, "x\n\\y"⟩⟩
    let text :=
      "[server]\nlisten_addr = \"localhost:80\"\nlog_level = '\"info\"'\n" ++
      "cors_allowed_origins = [\n    \"\"\"\na\n'b'\"\"\",\n    \"'''\\u0001\\\"\",\n]\n\n" ++
      "[streaming]\nheartbeat_interval_ms = 1000\nfetch_timeout_ms = 2000\nchunk_multiplier = 60\n" ++
      "heartbeat_message = '''\nx\n\\y'''\n"
    let e : Environment := ⟨fun _ => none, fun _ => some text.toUTF8.data.toList⟩
    s.toToml = .ok text ∧ ofToml text = .ok s ∧ load e "settings.toml" = .ok s := by
  intro s text e
  have written : s.toToml = .ok text := by decide +kernel
  obtain ⟨hread, hload⟩ := (survive_writing_and_loading s).2.2 text written
  exact ⟨written, hread, (hload e "settings.toml" rfl fun _ _ => rfl).1.mpr (by decide)⟩

end Settings

end SeriesStream
