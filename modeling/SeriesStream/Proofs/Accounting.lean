import SeriesStream.Proofs.Ledger

namespace SeriesStream

/-- What the consumer of a fetcher can do. -/
inductive FetchStep
  | next
  /-- A call that is given up after a while. -/
  | nextWithin (patience : Nat)
  | sleep (duration : Nat)
  | cancel
  deriving DecidableEq

/-- Whether the step asks for a chunk. -/
def FetchStep.isCall : FetchStep → Bool
  | next | nextWithin _ => true
  | _ => false

/-- What the calls so far have returned, the end as `none`, and the fetcher after them. A call that was
given up has returned nothing. -/
structure Session where
  told : List (Option (Except QueryError Chunk))
  fetcher : Fetcher

namespace Session

def chunk? : Option (Except QueryError Chunk) → Option Chunk
  | some (.ok c) => some c
  | _ => none

def error? : Option (Except QueryError Chunk) → Option QueryError
  | some (.error e) => some e
  | _ => none

def chunks (x : Session) : List Chunk := x.told.filterMap chunk?

def errors (x : Session) : List QueryError := x.told.filterMap error?

def take (x : Session) : FetchStep → Session
  | .next => ⟨x.told ++ [x.fetcher.next.1], x.fetcher.next.2⟩
  | .nextWithin patience =>
    match x.fetcher.nextWithin patience with
    | (.ready result, f) => ⟨x.told ++ [result], f⟩
    | (.pending, f) => ⟨x.told, f⟩
  | .sleep duration => ⟨x.told, x.fetcher.sleep duration⟩
  | .cancel => ⟨x.told, x.fetcher.cancel⟩

/-- The consumer takes its steps one after the other. -/
def follow (x : Session) (steps : List FetchStep) : Session := steps.foldl take x

/-- What a step can come to: it tells nothing, or the end, or a chunk, or an error, in each case after
some waiting, or it calls everything off. -/
inductive Taken (x : Session) (step : FetchStep) : Session → Prop
  | nothing {f : Fetcher} (goesOn : step ≠ .cancel) (waits : x.fetcher.Waits f) : Taken x step ⟨x.told, f⟩
  | through {f : Fetcher} (goesOn : step ≠ .cancel) (waits : x.fetcher.Waits f) (spent : f.Spent) :
      Taken x step ⟨x.told ++ [none], f⟩
  | chunk {f : Fetcher} {w : Window} {o : FetchOutcome} {c : Chunk} (goesOn : step ≠ .cancel)
      (waits : x.fetcher.Waits f) (settled : f.inFlight = some (.settled w o))
      (delivered : o.delivered w f.timeout = .ok c) :
      Taken x step ⟨x.told ++ [some (.ok c)], f.issueNext⟩
  | failure {f : Fetcher} (e : QueryError) (waits : x.fetcher.Waits f) :
      Taken x step ⟨x.told ++ [some (.error e)], f.cancel⟩
  | cancelled (calledOff : step = .cancel) : Taken x step ⟨x.told, x.fetcher.cancel⟩

end Session

namespace Fetcher

/-- Who waits for the task that is under way finds it settled. -/
theorem settled_waitForTask {f : Fetcher} {w : Window}
    (h : f.inFlight = some (.spawned w) ∨ ∃ due o, f.inFlight = some (.running w due o)) :
    ∃ o, f.waitForTask.inFlight = some (.settled w o) := by
  obtain ⟨due, o, hrunning⟩ := running_start h
  exact ⟨o, settle_of_running hrunning⟩

end Fetcher

namespace Session

variable {x : Session} {f : Fetcher} {step : FetchStep}

/-- A call that finds something tells it, and a call that finds nothing knows a task to wait for. -/
theorem taken_of_poll (sound : f.Sound) (waits : x.fetcher.Waits f) (goesOn : step ≠ .cancel) :
    (∃ result g, f.poll = (.ready result, g) ∧ x.Taken step ⟨x.told ++ [result], g⟩) ∨
      ∃ g w, f.poll = (.pending, g) ∧ g.Sound ∧ x.fetcher.Waits g ∧
        (g.inFlight = some (.spawned w) ∨ ∃ due o, g.inFlight = some (.running w due o)) := by
  have hsound := Fetcher.Waits.refl.demand.sound sound
  have hcases := Fetcher.poll_cases sound
  generalize f.poll = polled at hcases
  cases hcases with
  | pending running busy =>
    obtain ⟨w, hw⟩ := busy
    exact Or.inr ⟨_, w, rfl, hsound, waits.demand, hw⟩
  | through line finished =>
    exact Or.inl ⟨_, _, rfl, .through goesOn waits.demand (hsound.spent finished)⟩
  | chunk settled delivered => exact Or.inl ⟨_, _, rfl, .chunk goesOn waits settled delivered⟩
  | failure settled delivered => exact Or.inl ⟨_, _, rfl, .failure _ waits⟩

theorem taken_of_wait {w : Window} (sound : f.Sound) (waits : x.fetcher.Waits f)
    (busy : f.inFlight = some (.spawned w) ∨ ∃ due o, f.inFlight = some (.running w due o))
    (goesOn : step ≠ .cancel) :
    ∃ result g, f.waitForTask.poll = (.ready result, g) ∧ x.Taken step ⟨x.told ++ [result], g⟩ := by
  obtain ⟨o, settled⟩ := Fetcher.settled_waitForTask busy
  have hsound := Fetcher.Waits.refl.waitForTask.sound sound
  rcases taken_of_poll hsound waits.waitForTask goesOn with hready | ⟨g, v, hpoll, -, -, hbusy⟩
  · exact hready
  · have hcases := Fetcher.poll_cases hsound
    rw [hpoll] at hcases
    cases hcases
    rw [Fetcher.demand_of_busy settled, settled] at hbusy
    simp at hbusy

theorem take_cases (sound : x.fetcher.Sound) (step : FetchStep) : x.Taken step (x.take step) := by
  cases step with
  | next =>
    have goesOn : FetchStep.next ≠ .cancel := by simp
    rcases taken_of_poll sound .refl goesOn with ⟨result, g, hpoll, hdone⟩ | ⟨g, w, hpoll, hg, waits, busy⟩
    · simpa [take, Fetcher.next, hpoll] using hdone
    · obtain ⟨result, h, hready, hdone⟩ := taken_of_wait hg waits busy goesOn
      simpa [take, Fetcher.next, hpoll, hready] using hdone
  | nextWithin patience =>
    have goesOn : FetchStep.nextWithin patience ≠ .cancel := by simp
    rcases taken_of_poll sound .refl goesOn with ⟨result, g, hpoll, hdone⟩ | ⟨g, w, hpoll, hg, waits, busy⟩
    · simpa [take, Fetcher.nextWithin, hpoll] using hdone
    · simp only [take, Fetcher.nextWithin, hpoll]
      by_cases hzero : patience = 0
      · simpa [hzero] using Taken.nothing goesOn waits
      by_cases hdue : g.start.due?.any (· < g.start.now + patience) = true
      · have hstart := Fetcher.Waits.refl.start.sound hg
        obtain ⟨result, h, hready, hdone⟩ :=
          taken_of_wait hstart waits.start (Or.inr (Fetcher.running_start busy)) goesOn
        simpa [hzero, hdue, hready] using hdone
      · simpa [hzero, hdue] using Taken.nothing goesOn (waits.start.waitUntil _)
  | sleep duration => exact .nothing (by simp) (Fetcher.Waits.refl.waitUntil _)
  | cancel => exact .cancelled rfl

/-- A fetcher that is through tells every call the end. -/
theorem take_of_spent (h : x.fetcher.Spent) (step : FetchStep) :
    (x.take step).told = x.told ++ (if step.isCall then [none] else []) ∧ (x.take step).fetcher.Spent ∧
      (x.take step).fetcher.requests = x.fetcher.requests := by
  have hpoll := Fetcher.poll_of_spent h
  cases step with
  | next => simp [take, Fetcher.next, hpoll, h, FetchStep.isCall]
  | nextWithin patience => simp [take, Fetcher.nextWithin, hpoll, h, FetchStep.isCall]
  | sleep duration => exact ⟨(List.append_nil _).symm, h.waits (Fetcher.Waits.refl.waitUntil _)⟩
  | cancel => exact ⟨(List.append_nil _).symm, x.fetcher.spent_cancel, rfl⟩

theorem follow_of_spent (h : x.fetcher.Spent) (steps : List FetchStep) :
    (x.follow steps).told = x.told ++ (steps.filter FetchStep.isCall).map (fun _ => none) ∧
      (x.follow steps).fetcher.Spent ∧ (x.follow steps).fetcher.requests = x.fetcher.requests := by
  induction steps generalizing x with
  | nil => exact ⟨(List.append_nil _).symm, h, rfl⟩
  | cons step steps ih =>
    obtain ⟨htold, hspent, hrequests⟩ := take_of_spent h step
    obtain ⟨hrest, hend, hsame⟩ := ih hspent
    refine ⟨?_, hend, hsame.trans hrequests⟩
    rw [follow, List.foldl_cons, ← follow, hrest, htold, List.filter_cons]
    cases step.isCall <;> simp

/-- The books of a session: as long as no error was told and nothing was called off, those of its fetcher,
and from then on those of the last fetcher before, which had sent the same requests. -/
inductive Books (s : Source) (windows : List Window) (past : List FetchStep) (x : Session) : Prop
  | kept (goesOn : .cancel ∉ past) (flawless : x.errors = [])
      (ledger : Fetcher.Ledger s windows x.chunks x.fetcher) (ended : none ∈ x.told → x.fetcher.Spent)
  | closed {f : Fetcher} (ledger : Fetcher.Ledger s windows x.chunks f)
      (sent : x.fetcher.requests = f.requests) (spent : x.fetcher.Spent) (once : x.errors.length ≤ 1)
      (why : x.errors ≠ [] ∨ .cancel ∈ past)

section

variable {s : Source} {windows : List Window} {past : List FetchStep}

theorem chunks_told (x : Session) (result : Option (Except QueryError Chunk)) (f : Fetcher) :
    chunks ⟨x.told ++ [result], f⟩ = x.chunks ++ (chunk? result).toList := by
  rw [chunks, List.filterMap_append]
  cases h : chunk? result <;> simp [h, chunks]

theorem errors_told (x : Session) (result : Option (Except QueryError Chunk)) (f : Fetcher) :
    errors ⟨x.told ++ [result], f⟩ = x.errors ++ (error? result).toList := by
  rw [errors, List.filterMap_append]
  cases h : error? result <;> simp [h, errors]

/-- Behind an error or a cancel nothing is entered any more. -/
theorem books_of_closed {f : Fetcher} (ledger : Fetcher.Ledger s windows x.chunks f)
    (sent : x.fetcher.requests = f.requests) (spent : x.fetcher.Spent) (once : x.errors.length ≤ 1)
    (why : x.errors ≠ [] ∨ .cancel ∈ past) (step : FetchStep) :
    Books s windows (past ++ [step]) (x.take step) := by
  obtain ⟨htold, hspent, hrequests⟩ := take_of_spent spent step
  have hchunks : (x.take step).chunks = x.chunks := by
    rw [chunks, htold, List.filterMap_append]
    cases step.isCall <;> simp [chunks, chunk?]
  have herrors : (x.take step).errors = x.errors := by
    rw [errors, htold, List.filterMap_append]
    cases step.isCall <;> simp [errors, error?]
  exact .closed (hchunks ▸ ledger) (hrequests.trans sent) hspent (herrors ▸ once)
    (why.imp (fun hfailed => herrors ▸ hfailed) (List.mem_append_left _))

/-- A step keeps the books: each chunk that is told is entered. -/
theorem Books.take (h : Books s windows past x) (step : FetchStep) :
    Books s windows (past ++ [step]) (x.take step) := by
  cases h with
  | closed ledger sent spent once why => exact books_of_closed ledger sent spent once why step
  | kept goesOn flawless ledger ended =>
    have goes {step : FetchStep} (h : step ≠ .cancel) : .cancel ∉ past ++ [step] := by
      simpa [goesOn] using h.symm
    have hcases := take_cases ledger.sound step
    generalize x.take step = y at hcases
    cases hcases with
    | nothing hstep waits =>
      exact .kept (goes hstep) flawless (ledger.waits waits) fun hend => ((ended hend).waits waits).1
    | through hstep waits spent =>
      refine .kept (goes hstep) ?_ ?_ fun _ => spent
      · simp [errors_told, error?, flawless]
      · simpa [chunks_told, chunk?] using ledger.waits waits
    | @chunk f w o c hstep waits settled delivered =>
      refine .kept (goes hstep) ?_ ?_ fun hend => ?_
      · simp [errors_told, error?, flawless]
      · simpa [chunks_told, chunk?] using (ledger.waits waits).chunk settled delivered
      · have hspent := ended (by simpa using hend)
        simp [(hspent.waits waits).1.inFlight] at settled
    | @failure f e waits =>
      have herrors : errors ⟨x.told ++ [some (.error e)], f.cancel⟩ = [e] := by
        simp [errors_told, error?, flawless]
      have hledger : Fetcher.Ledger s windows (chunks ⟨x.told ++ [some (.error e)], f.cancel⟩) f := by
        simpa [chunks_told, chunk?] using ledger.waits waits
      exact .closed hledger rfl f.spent_cancel (by simp [herrors]) (Or.inl (by simp [herrors]))
    | cancelled calledOff =>
      refine .closed ledger rfl x.fetcher.spent_cancel ?_ (Or.inr (by simp [calledOff]))
      rw [show errors ⟨x.told, x.fetcher.cancel⟩ = [] from flawless]
      exact Nat.zero_le 1

theorem Books.follow (h : Books s windows past x) (steps : List FetchStep) :
    Books s windows (past ++ steps) (x.follow steps) := by
  induction steps generalizing past x with
  | nil => simpa [Session.follow] using h
  | cons step steps ih => simpa [Session.follow] using ih (h.take step)

theorem books_create (backend : Backend) (queries : List BaseQuery) (windows : List Window) (timeout : Nat) :
    Books ⟨backend, queries, timeout⟩ windows [] ⟨[], Fetcher.create backend queries windows timeout⟩ :=
  .kept (by simp) rfl (Fetcher.ledger_create backend queries windows timeout) (by simp)

/-- Whatever was told, the chunks are those of a ledger with the requests that were sent. -/
theorem Books.ledger (h : Books s windows past x) :
    ∃ f, Fetcher.Ledger s windows x.chunks f ∧ f.requests = x.fetcher.requests := by
  cases h with
  | kept goesOn flawless ledger ended => exact ⟨_, ledger, rfl⟩
  | closed ledger sent spent once why => exact ⟨_, ledger, sent.symm⟩

theorem Books.spent (h : Books s windows past x)
    (hend : x.errors ≠ [] ∨ none ∈ x.told ∨ .cancel ∈ past) : x.fetcher.Spent := by
  cases h with
  | closed ledger sent spent once why => exact spent
  | kept goesOn flawless ledger ended =>
    rcases hend with hfailed | hend | hcancelled
    · exact absurd flawless hfailed
    · exact ended hend
    · exact absurd hcancelled goesOn

end

/-- However a consumer asks, gives up, sleeps and cancels: the backend has at most one request whose chunk
was not told, no window gets lost before the first error or cancel, the chunks tell what the backend
answered for the windows in their order, there is one error at most, and behind an error, the end or a
cancel all calls tell the end and no request is sent. -/
theorem sessions_keep_their_books (backend : Backend) (queries : List BaseQuery) (windows : List Window)
    (timeout : Nat) (steps : List FetchStep) :
    let x := follow ⟨[], Fetcher.create backend queries windows timeout⟩ steps
    x.fetcher.requests.length ≤ x.chunks.length + 1 ∧
    (x.errors = [] → .cancel ∉ steps →
      x.chunks.length + x.fetcher.inFlight.toList.length + x.fetcher.pending.length = windows.length) ∧
    (∀ i c, x.chunks[i]? = some c → ∃ w delay d, windows[i]? = some w ∧
      x.fetcher.requests[i]? = some ⟨queries, w⟩ ∧
      backend i ⟨queries, w⟩ = ⟨some delay, .data d⟩ ∧ delay ≤ timeout ∧ c = ⟨w, d⟩) ∧
    x.errors.length ≤ 1 ∧
    (x.errors ≠ [] ∨ none ∈ x.told ∨ .cancel ∈ steps →
      x.fetcher.pending = [] ∧ x.fetcher.inFlight = none ∧
      ∀ more, (x.follow more).told = x.told ++ (more.filter FetchStep.isCall).map (fun _ => none) ∧
        (x.follow more).fetcher.pending = [] ∧ (x.follow more).fetcher.inFlight = none ∧
        (x.follow more).fetcher.requests = x.fetcher.requests) := by
  intro x
  have books : Books ⟨backend, queries, timeout⟩ windows steps x :=
    (books_create backend queries windows timeout).follow steps
  obtain ⟨f, ledger, sent⟩ := books.ledger
  refine ⟨sent ▸ ledger.requests_le, fun flawless goesOn => ?_, fun i c hc => ?_, ?_, fun hend => ?_⟩
  · cases books with
    | kept _ _ ledger _ => exact ledger.count
    | closed _ _ _ _ why => exact absurd why (not_or.mpr ⟨not_not_intro flawless, goesOn⟩)
  · rw [← sent]
    exact ledger.chunk_eq hc
  · cases books with
    | kept _ flawless _ _ => simp [flawless]
    | closed _ _ _ once _ => exact once
  · have spent := books.spent hend
    refine ⟨spent.pending, spent.inFlight, fun more => ?_⟩
    obtain ⟨htold, hspent, hrequests⟩ := follow_of_spent spent more
    exact ⟨htold, hspent.pending, hspent.inFlight, hrequests⟩

end Session

end SeriesStream
