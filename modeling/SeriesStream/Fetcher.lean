import SeriesStream.Duration
import SeriesStream.Evaluator
import SeriesStream.Metrics
import SeriesStream.Text.Quoted

namespace SeriesStream

/-- What a backend says to one request. -/
inductive Answer
  | data (d : RawData)
  | refused (e : QueryError)
  /-- The task that asked breaks off with this text. -/
  | crashed (text : String)

/-- An answer and how long it takes, `none` for one that never comes. -/
structure Reply where
  delay : Option Nat
  answer : Answer

/-- A backend by its reply to the request of each number, counted from zero. -/
abbrev Backend := Nat → FetchRequest → Reply

/-- What a fetch under a deadline comes to. -/
inductive FetchOutcome
  | data (d : RawData)
  | refused (e : QueryError)
  | crashed (text : String)
  | late

/-- How long a fetch takes and what it comes to. An answer at the very deadline is in time. -/
def Reply.within (r : Reply) (timeout : Nat) : Nat × FetchOutcome :=
  match r.delay with
  | none => (timeout, .late)
  | some delay =>
    if timeout < delay then (timeout, .late)
    else
      (delay, match r.answer with
        | .data d => .data d
        | .refused e => .refused e
        | .crashed text => .crashed text)

/-- Why a window could not be fetched. -/
inductive FetchFailure
  | refused (e : QueryError)
  | crashed (window : Window) (text : String)
  | late (window : Window) (timeout : Nat)

def FetchFailure.toQueryError : FetchFailure → QueryError
  | .refused e => e
  | .crashed w text =>
    ⟨.internal, s!"fetch task for window {w.render} failed: task N panicked with message " ++
      Text.quoted text⟩
  | .late w timeout =>
    ⟨.timeout, s!"backend did not answer window {w.render} within {Duration.render timeout}"⟩

/-- The fetch of one window. -/
inductive Task
  /-- Not begun: it sends its request when the consumer next waits. -/
  | spawned (window : Window)
  | running (window : Window) (due : Nat) (outcome : FetchOutcome)
  | settled (window : Window) (outcome : FetchOutcome)

/-- Fetches windows one after the other, one ahead of its consumer, on a clock that moves only
while the consumer waits. -/
structure Fetcher where
  backend : Backend
  queries : List BaseQuery
  /-- Milliseconds a backend has for its answer. -/
  timeout : Nat
  pending : List Window
  inFlight : Option Task
  finished : Bool
  now : Nat
  /-- The requests the backend received, the first one first. -/
  requests : List FetchRequest
  fetched : Nat
  failures : Tally

/-- What can be had without waiting. -/
inductive Poll (α : Type)
  | ready (a : α)
  | pending

namespace Fetcher

def create (backend : Backend) (queries : List BaseQuery) (windows : List Window) (timeout : Nat) :
    Fetcher where
  backend := backend
  queries := queries
  timeout := timeout
  pending := windows
  inFlight := none
  finished := false
  now := 0
  requests := []
  fetched := 0
  failures := OrderedMap.empty

/-- Spawns the fetch of the next window, if there is one. -/
def issueNext (f : Fetcher) : Fetcher :=
  match f.pending with
  | [] => { f with inFlight := none }
  | w :: rest => { f with inFlight := some (.spawned w), pending := rest }

/-- Gives up what is under way and what is left. -/
def cancel (f : Fetcher) : Fetcher :=
  { f with finished := true, pending := [], inFlight := none }

/-- A spawned task sends its request. -/
def start (f : Fetcher) : Fetcher :=
  match f.inFlight with
  | some (.spawned w) =>
    let request := ⟨f.queries, w⟩
    let (duration, outcome) := (f.backend f.requests.length request).within f.timeout
    { f with
      inFlight := some (.running w (f.now + duration) outcome)
      requests := f.requests ++ [request] }
  | _ => f

/-- A running task is over, and what it came to is counted. -/
def settle (f : Fetcher) : Fetcher :=
  match f.inFlight with
  | some (.running w _ outcome) =>
    let f := { f with inFlight := some (.settled w outcome) }
    match outcome with
    | .data _ => { f with fetched := f.fetched + 1 }
    | .refused e => { f with failures := f.failures.count e.kind.label }
    | .late => { f with failures := f.failures.count QueryErrorKind.timeout.label }
    | .crashed _ => f
  | _ => f

/-- When the running task will be over. -/
def due? (f : Fetcher) : Option Nat :=
  match f.inFlight with
  | some (.running _ due _) => some due
  | _ => none

/-- The consumer waits until `t`, and a task that is due earlier is over by then. -/
def waitUntil (f : Fetcher) (t : Nat) : Fetcher :=
  if t ≤ f.now then f
  else
    let f := f.start
    let f := if f.due?.any (· < t) then f.settle else f
    { f with now := t }

def sleep (f : Fetcher) (duration : Nat) : Fetcher := f.waitUntil (f.now + duration)

/-- The consumer waits until the task is over. -/
def waitForTask (f : Fetcher) : Fetcher :=
  let f := f.start
  { f.settle with now := max f.now (f.due?.getD f.now) }

/-- A demand for the next chunk: it makes sure that a fetch is under way, unless all is over. -/
def demand (f : Fetcher) : Fetcher :=
  if f.finished ∨ f.inFlight.isSome then f
  else if f.pending.isEmpty then { f with finished := true }
  else f.issueNext

/-- The next chunk, a failure after which nothing follows, or the end. Handing out a chunk spawns
the fetch of the window after it. -/
def poll (f : Fetcher) : Poll (Option (Except QueryError Chunk)) × Fetcher :=
  let f := f.demand
  if f.finished then (.ready none, f)
  else
    match f.inFlight with
    | some (.settled w (.data d)) => (.ready (some (.ok ⟨w, d⟩)), f.issueNext)
    | some (.settled _ (.refused e)) =>
      (.ready (some (.error (FetchFailure.refused e).toQueryError)), f.cancel)
    | some (.settled w (.crashed text)) =>
      (.ready (some (.error (FetchFailure.crashed w text).toQueryError)), f.cancel)
    | some (.settled w .late) =>
      (.ready (some (.error (FetchFailure.late w f.timeout).toQueryError)), f.cancel)
    | _ => (.pending, f)

/-- Waits for the next chunk, a failure or the end. -/
def next (f : Fetcher) : Option (Except QueryError Chunk) × Fetcher :=
  match f.poll with
  | (.ready result, f) => (result, f)
  | (.pending, f) =>
    match f.waitForTask.poll with
    | (.ready result, f) => (result, f)
    | (.pending, f) => (none, f)

/-- Waits no longer than `patience`; what is ready only then is left for a later call. -/
def nextWithin (f : Fetcher) (patience : Nat) : Poll (Option (Except QueryError Chunk)) × Fetcher :=
  match f.poll with
  | (.ready result, f) => (.ready result, f)
  | (.pending, f) =>
    if patience = 0 then (.pending, f)
    else
      let f := f.start
      if f.due?.any (· < f.now + patience) then f.waitForTask.poll
      else (.pending, f.waitUntil (f.now + patience))

end Fetcher

end SeriesStream
