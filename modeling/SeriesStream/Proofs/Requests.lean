import SeriesStream.Proofs.Census
import SeriesStream.Proofs.Handling

namespace SeriesStream.Http

open Json (Decoder)

/-- A request at its time, with the answer to it. -/
structure Exchange where
  now : Int
  request : Request
  answer : Response

namespace Exchange

def sent (e : Exchange) : Int × Request := (e.now, e.request)

/-- Points were written. -/
def Accepted (e : Exchange) : Prop :=
  e.request.method = .post ∧ Endpoint.ofPath? e.request.path = some .write ∧ e.answer.status = 200

instance (e : Exchange) : Decidable e.Accepted := inferInstanceAs (Decidable (_ ∧ _))

/-- A stream or the health was asked for, or the request was turned away. -/
def Idle (e : Exchange) : Prop :=
  Endpoint.ofPath? e.request.path = some .query ∨ Endpoint.ofPath? e.request.path = some .health ∨
    400 ≤ e.answer.status ∧ e.answer.status < 500

theorem Idle.not_accepted {e : Exchange} (h : e.Idle) : ¬e.Accepted := by
  rintro ⟨-, path, status⟩
  rcases h with hquery | hhealth | hrefused
  · rw [path] at hquery
    cases hquery
  · rw [path] at hhealth
    cases hhealth
  · omega

end Exchange

/-- The second log is the first one without some exchanges that may be left out, and perhaps at other times. -/
inductive Thinned (may : Exchange → Prop) : List Exchange → List Exchange → Prop
  | nil : Thinned may [] []
  | keep {e : Exchange} {log kept : List Exchange} (now : Int) (rest : Thinned may log kept) :
      Thinned may (e :: log) ({ e with now } :: kept)
  | drop {e : Exchange} {log kept : List Exchange} (idle : may e) (rest : Thinned may log kept) :
      Thinned may (e :: log) kept

theorem thinned_filter (log : List Exchange) : Thinned (¬·.Accepted) log (log.filter (·.Accepted)) := by
  induction log with
  | nil => exact .nil
  | cons e log ih =>
    by_cases h : e.Accepted
    · rw [List.filter_cons_of_pos (by simpa using h)]
      exact .keep e.now ih
    · rw [List.filter_cons_of_neg (by simpa using h)]
      exact .drop h ih

/-- The pairs of a query and a tag set that points were written for. -/
def writtenPairs (log : List Exchange) : List (BaseQuery × TagSet) :=
  (log.filter (·.Accepted)).filterMap fun e =>
    (Decoder.front WriteCall.ofJson e.request.body).toOption.map fun w => (w.query, w.tags)

/-- A server goes through these exchanges, one after the other. -/
inductive Run : Server → List Exchange → Server → Prop
  | nil (s : Server) : Run s [] s
  | cons {s t u : Server} {e : Exchange} {log : List Exchange}
      (first : s.handle e.now e.request = .ok (e.answer, t)) (rest : Run t log u) : Run s (e :: log) u

section

variable {s t u : Server} {log kept : List Exchange}

theorem Server.Handled.options {now : Int} {r : Request} {a : Response} (h : s.Handled now r a t) :
    t.options = s.options := by
  cases h <;> rfl

theorem Server.handled {now : Int} {r : Request} {a : Response} (beating : 0 < s.options.heartbeat)
    (h : s.handle now r = .ok (a, t)) : s.Handled now r a t := by
  obtain ⟨a', t', hhandle, hcases⟩ := s.handle_cases now r beating
  obtain ⟨rfl, rfl⟩ := Prod.mk.inj (Except.ok.inj (h.symm.trans hhandle))
  exact hcases

theorem exists_run (s : Server) (beating : 0 < s.options.heartbeat) (sent : List (Int × Request)) :
    ∃ log t, log.map Exchange.sent = sent ∧ Run s log t := by
  induction sent generalizing s with
  | nil => exact ⟨[], s, rfl, .nil s⟩
  | cons e sent ih =>
    obtain ⟨a, t, hhandle, hcases⟩ := s.handle_cases e.1 e.2 beating
    obtain ⟨log, u, rfl, run⟩ := ih t (by rwa [hcases.options])
    exact ⟨⟨e.1, e.2, a⟩ :: log, u, rfl, .cons hhandle run⟩

theorem Run.handleAll (h : Run s log t) :
    s.handleAll (log.map Exchange.sent) = .ok (log.map (·.answer), t) := by
  induction h with
  | nil s => rfl
  | cons first _ ih =>
    simp only [List.map_cons, Server.handleAll, Exchange.sent] at ih ⊢
    simp [first, ih, bind, Except.bind, pure, Except.pure]

theorem Run.split {log' : List Exchange} (h : Run s (log ++ log') u) : ∃ t, Run s log t ∧ Run t log' u := by
  induction log generalizing s with
  | nil => exact ⟨s, .nil s, h⟩
  | cons e log ih =>
    cases h with
    | cons first rest =>
      obtain ⟨t, hlog, hlog'⟩ := ih rest
      exact ⟨t, .cons first hlog, hlog'⟩

theorem Run.append {log' : List Exchange} (h : Run s log t) (h' : Run t log' u) : Run s (log ++ log') u := by
  induction h with
  | nil => exact h'
  | cons first _ ih => exact .cons first (ih h')

theorem Run.options (h : Run s log t) (beating : 0 < s.options.heartbeat) : t.options = s.options := by
  induction h with
  | nil => rfl
  | cons first _ ih =>
    have hfirst := (Server.handled beating first).options
    exact (ih (by rwa [hfirst])).trans hfirst

/-- Without exchanges that wrote no points all others go as before. -/
theorem Run.thinned {may : Exchange → Prop} (h : Run s log t) (beating : 0 < s.options.heartbeat)
    (timed : ∀ e ∈ log, e.request.Timed) (idle : ∀ e, may e → ¬e.Accepted) (thin : Thinned may log kept) :
    Run s kept t := by
  induction thin generalizing s with
  | nil => exact h
  | @keep e log kept now _ ih =>
    cases h with
    | @cons _ v _ _ _ first rest =>
      obtain ⟨htimed, hall⟩ := List.forall_mem_cons.mp timed
      have hoptions := (Server.handled beating first).options
      rw [s.handle_of_timed htimed e.now now] at first
      exact .cons first (ih rest (by rwa [hoptions]) hall)
  | @drop e log kept hmay _ ih =>
    cases h with
    | @cons _ v _ _ _ first rest =>
      have hall := (List.forall_mem_cons.mp timed).2
      cases Server.handled beating first with
      | written writes _ status => exact absurd ⟨writes.post, writes.path, status⟩ (idle e hmay)
      | kept => exact ih rest beating hall

/-- A run adds to the store the pairs that it writes points for. -/
theorem Run.mem_pairs (h : Run s log t) (beating : 0 < s.options.heartbeat) (x : BaseQuery × TagSet) :
    x ∈ t.store.pairs ↔ x ∈ s.store.pairs ∨ x ∈ writtenPairs log := by
  induction h with
  | nil => simp [writtenPairs]
  | @cons s t u e log first _ ih =>
    have hhandled := Server.handled beating first
    rw [ih (by rwa [hhandled.options])]
    cases hhandled with
    | @written w writes sensible status body =>
      have haccepted : e.Accepted := ⟨writes.post, writes.path, status⟩
      have hpairs : writtenPairs (e :: log) = (w.query, w.tags) :: writtenPairs log := by
        simp [writtenPairs, haccepted, writes.decoded, Except.toOption]
      rw [hpairs, Server.after, Store.mem_pairs_write, List.mem_cons, or_assoc]
      exact or_left_comm
    | kept _ refused =>
      have hnot : ¬e.Accepted := fun h => (refused h.1 h.2.1).1 h.2.2
      have hpairs : writtenPairs (e :: log) = writtenPairs log := by simp [writtenPairs, hnot]
      rw [hpairs]

end

/-- A write of one point for the query `cpu`. -/
def Request.point : Request :=
  ⟨.post, "/api/v1/write", [("content-type", "application/json")],
    Glyph.ofString "\x7b\"query\":\"cpu\",\"points\":[\x7b\"timestamp\":7,\"value\":0\x7d]\x7d"⟩

def Request.health : Request := ⟨.get, "/health", [], []⟩

theorem Request.point_decoded : ∃ v, Decoder.front WriteCall.ofJson Request.point.body =
    .ok ⟨"cpu", OrderedMap.empty, [⟨some 7, v⟩]⟩ := by
  have hparts : (Decoder.front WriteCall.ofJson Request.point.body).toOption.map
      (fun w => (w.query, w.tags, w.points.map (·.timestamp))) = some ("cpu", OrderedMap.empty, [some 7]) := by
    decide +kernel
  obtain ⟨w, hw, heq⟩ := Option.map_eq_some_iff.mp hparts
  obtain ⟨query, tags, points⟩ := w
  obtain ⟨hquery, heq⟩ := Prod.mk.inj heq
  obtain ⟨htags, hpoints⟩ := Prod.mk.inj heq
  obtain ⟨⟨timestamp, v⟩, rest, rfl, htime, hrest⟩ := List.map_eq_cons_iff.mp hpoints
  cases hquery
  cases htags
  cases htime
  cases List.map_eq_nil_iff.mp hrest
  cases hfront : Decoder.front WriteCall.ofJson Request.point.body with
  | error e => rw [hfront] at hw; cases hw
  | ok w' =>
    rw [hfront] at hw
    cases hw
    exact ⟨v, rfl⟩

end SeriesStream.Http
