import SeriesStream.Proofs.Serving

namespace SeriesStream.Http

open Json (Decoder)

/-- The request asks for these points to be written, and can be understood. -/
structure Request.Writes (r : Request) (w : WriteCall) : Prop where
  post : r.method = .post
  path : Endpoint.ofPath? r.path = some .write
  json : r.isJson = true
  decoded : Decoder.front WriteCall.ofJson r.body = .ok w

/-- There are points, and the query is not blank. -/
def WriteCall.Sensible (w : WriteCall) : Prop :=
  w.points ≠ [] ∧ ∃ c ∈ w.query.toList, Text.isBlank c = false

/-- All points that the request writes have their own timestamps. -/
def Request.Timed (r : Request) : Prop :=
  ∀ w, r.Writes w → w.Sensible → ∀ p ∈ w.points, ∃ t, p.timestamp = some t

/-- The points as they are stored when they are written at the time `now`. -/
def WriteCall.stamped (w : WriteCall) (now : Int) : List (Int × Float) :=
  w.points.map fun p => (p.timestamp.getD now, p.value)

/-- The body of an answer to points that were written. -/
def writtenText (points : Nat) : String :=
  (Json.ofFields [("success", .bool true), ("points_written", .ofInt points)]).toText

/-- The body of an answer about a store with this number of series. -/
def healthText (series : Nat) : String :=
  (Json.ofFields [("status", .ofString "healthy"), ("version", .ofString version),
    ("series", .ofInt series)]).toText

theorem sensible_iff_no_fault {w : WriteCall} : w.Sensible ↔ w.fault? = none := by
  unfold WriteCall.Sensible WriteCall.fault?
  rw [← isBlankText_eq_false_iff]
  cases hpoints : w.points with
  | nil => simp
  | cons p points => cases hblank : isBlankText w.query <;> simp

/-- The call that a request to an endpoint makes, and what is known of its body then. -/
inductive Request.Calls (r : Request) : Endpoint → Call → Prop
  | health : Calls r .health .health
  | metrics : Calls r .metrics .metrics
  | write {w : WriteCall} (json : r.isJson = true) (decoded : Decoder.front WriteCall.ofJson r.body = .ok w) :
      Calls r .write (.write w)
  | query {q : QueryCall} (decoded : Decoder.front QueryCall.ofJson r.body = .ok q) : Calls r .query (.query q)
  | foreign {e : Endpoint} (bodied : e ≠ .health) (json : r.isJson = false) : Calls r e .foreign
  | unreadable {e : Endpoint} {error : Json.DecodeError} (bodied : e ≠ .health)
      (broken : e = .write → Decoder.front WriteCall.ofJson r.body = .error error) : Calls r e (.unreadable error)

theorem call_cases (e : Endpoint) (r : Request) : r.Calls e (e.call r) := by
  cases e with
  | health => exact .health
  | metrics => exact .metrics
  | write =>
    cases hjson : r.isJson with
    | false => simpa [Endpoint.call, hjson] using Request.Calls.foreign (e := .write) (by simp) hjson
    | true =>
      cases hbody : Decoder.front WriteCall.ofJson r.body with
      | ok w => simpa [Endpoint.call, hjson, hbody] using Request.Calls.write hjson hbody
      | error f =>
        have hcalls : r.Calls .write (.unreadable f) := .unreadable (by simp) fun _ => hbody
        simpa [Endpoint.call, hjson, hbody] using hcalls
  | query =>
    cases hjson : r.isJson with
    | false => simpa [Endpoint.call, hjson] using Request.Calls.foreign (e := .query) (by simp) hjson
    | true =>
      cases hbody : Decoder.front QueryCall.ofJson r.body with
      | ok q => simpa [Endpoint.call, hjson, hbody] using Request.Calls.query hbody
      | error f =>
        have hcalls : r.Calls .query (.unreadable f) := .unreadable (by simp) fun h => by cases h
        simpa [Endpoint.call, hjson, hbody] using hcalls

namespace Server

/-- The server after points were written. -/
def after (s : Server) (now : Int) (w : WriteCall) : Server :=
  { s with store := (s.store.write w.query w.tags (w.stamped now)).2 }

/-- What can become of a request: its points are written, or nothing changes. Points that cannot be
written are refused. -/
inductive Handled (s : Server) (now : Int) (r : Request) : Response → Server → Prop
  | written {a : Response} {w : WriteCall} (writes : r.Writes w) (sensible : w.Sensible)
      (status : a.status = 200) (body : a.body = writtenText w.points.length) : Handled s now r a (s.after now w)
  | kept {a : Response} (health : r.method = .get → Endpoint.ofPath? r.path = some .health →
        a.status = 200 ∧ a.body = healthText s.store.seriesCount)
      (refused : r.method = .post → Endpoint.ofPath? r.path = some .write →
        a.status ≠ 200 ∧ ∀ w, r.Writes w → ¬w.Sensible) : Handled s now r a s

theorem handle_of_method {s : Server} {r : Request} {e : Endpoint} (now : Int)
    (path : Endpoint.ofPath? r.path = some e) (takes : e.methods.contains r.method = true) :
    s.handle now r = (s.answerCall now (e.call r)).map fun result =>
      ((if r.method = .head then { result.1 with body := "" } else result.1).withHeaders
        (s.cors.originHeaders r), { s with store := result.2 }) := by
  have hoptions : r.method ≠ .options := by
    intro h
    cases e <;> simp [h, Endpoint.methods] at takes
  unfold handle
  rw [path]
  cases hmethod : r.method with
  | options => exact absurd hmethod hoptions
  | _ =>
    rw [hmethod] at takes
    simp only [takes, ↓reduceIte]
    cases s.answerCall now (e.call r) <;> rfl

/-- What no endpoint takes is turned away at any time, unless a browser only asks. -/
theorem handle_of_other (s : Server) {r : Request}
    (other : ∀ e, Endpoint.ofPath? r.path = some e → e.methods.contains r.method = false) :
    ∃ a, (∀ now, s.handle now r = .ok (a, s)) ∧ (r.method ≠ .options → a.status ≠ 200) := by
  unfold handle
  cases hpath : Endpoint.ofPath? r.path with
  | none => cases hmethod : r.method <;> exact ⟨_, fun _ => rfl, by simp [Response.withHeaders, Response.empty]⟩
  | some e =>
    have htakes := other e hpath
    cases hmethod : r.method with
    | options => exact ⟨_, fun _ => rfl, by simp⟩
    | _ =>
      rw [hmethod] at htakes
      simp only [htakes, Bool.false_eq_true, ↓reduceIte]
      exact ⟨_, fun _ => rfl, by simp [Response.withHeaders, Response.empty]⟩

theorem handle_cases (s : Server) (now : Int) (r : Request) (beating : 0 < s.options.heartbeat) :
    ∃ a s', s.handle now r = .ok (a, s') ∧ s.Handled now r a s' := by
  by_cases hother : ∀ e, Endpoint.ofPath? r.path = some e → e.methods.contains r.method = false
  · obtain ⟨a, ha, hstatus⟩ := s.handle_of_other hother
    refine ⟨a, s, ha now, .kept (fun get path => ?_) fun post path => ⟨hstatus (by simp [post]), ?_⟩⟩
    · have := hother _ path
      simp [get, Endpoint.methods] at this
    · have := hother _ path
      simp [post, Endpoint.methods] at this
  · obtain ⟨e, path, takes⟩ : ∃ e, Endpoint.ofPath? r.path = some e ∧ e.methods.contains r.method = true := by
      simpa using hother
    rw [handle_of_method now path takes]
    have hcalls := call_cases e r
    generalize e.call r = call at hcalls
    cases hcalls with
    | health =>
      refine ⟨_, s, rfl, .kept (fun get _ => ?_) fun _ hpath => ?_⟩
      · simp only [get, reduceCtorEq, ↓reduceIte]
        exact ⟨rfl, rfl⟩
      · rw [path] at hpath
        cases hpath
    | metrics =>
      refine ⟨_, s, rfl, .kept (fun _ hpath => ?_) fun _ hpath => ?_⟩
      · rw [path] at hpath
        cases hpath
      · rw [path] at hpath
        cases hpath
    | @write w json decoded =>
      have post : r.method = .post := by simpa [Endpoint.methods] using takes
      have writes : r.Writes w := ⟨post, path, json, decoded⟩
      cases hfault : w.fault? with
      | some error =>
        refine ⟨_, s, by simp only [answerCall, answerWrite, hfault]; rfl, .kept ?_ fun _ _ => ⟨?_, ?_⟩⟩
        · intro get
          rw [post] at get
          cases get
        · simp [post, Response.withHeaders, Response.json]
        · intro w' hw' sensible
          obtain rfl : w = w' := Except.ok.inj (decoded.symm.trans hw'.decoded)
          rw [sensible_iff_no_fault.mp sensible] at hfault
          cases hfault
      | none =>
        refine ⟨_, s.after now w, by simp only [answerCall, answerWrite, hfault]; rfl,
          .written writes (sensible_iff_no_fault.mpr hfault) ?_ ?_⟩
        · simp [post, Response.withHeaders, Response.json]
        · simp [post, Response.withHeaders, Response.json, writtenText, Store.write]
    | @query q decoded =>
      obtain ⟨answer, hanswer, -⟩ := answerQuery_cases s beating (QueryCall.shown decoded).2.1
      refine ⟨_, s, by simp only [answerCall, hanswer, bind, Except.bind]; rfl,
        .kept (fun _ hpath => ?_) fun _ hpath => ?_⟩
      · rw [path] at hpath
        cases hpath
      · rw [path] at hpath
        cases hpath
    | foreign bodied json =>
      refine ⟨_, s, rfl, .kept (fun _ hpath => ?_) fun post _ => ⟨?_, fun w hw => ?_⟩⟩
      · exact absurd (Option.some.inj (path.symm.trans hpath)) bodied
      · simp [post, Response.withHeaders, Response.refusal]
      · rw [hw.json] at json
        cases json
    | @unreadable _ error bodied broken =>
      refine ⟨_, s, rfl, .kept (fun _ hpath => ?_) fun post hpath => ⟨?_, fun w hw => ?_⟩⟩
      · exact absurd (Option.some.inj (path.symm.trans hpath)) bodied
      · cases error <;> simp [post, Response.withHeaders, ofDecodeError, Response.refusal]
      · have := broken (Option.some.inj (path.symm.trans hpath))
        rw [hw.decoded] at this
        cases this

/-- Points with their own timestamps are written the same at any time. -/
theorem answerWrite_of_timed (s : Server) {r : Request} {w : WriteCall} (timed : r.Timed) (writes : r.Writes w)
    (now now' : Int) : s.answerWrite now w = s.answerWrite now' w := by
  unfold answerWrite
  cases hfault : w.fault? with
  | some e => rfl
  | none =>
    have hpoints : (w.points.map fun p => (p.timestamp.getD now, p.value)) =
        w.points.map fun p => (p.timestamp.getD now', p.value) := by
      refine List.map_congr_left fun p hp => ?_
      obtain ⟨t, ht⟩ := timed w writes (sensible_iff_no_fault.mpr hfault) p hp
      simp [ht]
    simp only [hpoints]

/-- What becomes of such a request depends on the server and on the request only. -/
theorem handle_of_timed (s : Server) {r : Request} (timed : r.Timed) (now now' : Int) :
    s.handle now r = s.handle now' r := by
  by_cases hother : ∀ e, Endpoint.ofPath? r.path = some e → e.methods.contains r.method = false
  · obtain ⟨a, ha, -⟩ := s.handle_of_other hother
    rw [ha now, ha now']
  · obtain ⟨e, path, takes⟩ : ∃ e, Endpoint.ofPath? r.path = some e ∧ e.methods.contains r.method = true := by
      simpa using hother
    rw [handle_of_method now path takes, handle_of_method now' path takes]
    have hcalls := call_cases e r
    generalize e.call r = call at hcalls
    cases hcalls with
    | @write w json decoded =>
      have post : r.method = .post := by simpa [Endpoint.methods] using takes
      have hanswer := s.answerWrite_of_timed timed ⟨post, path, json, decoded⟩ now now'
      simp only [answerCall, hanswer]
    | _ => rfl

end Server

end SeriesStream.Http
