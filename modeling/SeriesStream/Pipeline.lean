import SeriesStream.Fetcher

namespace SeriesStream

/-- A fetcher and the evaluator it feeds: for each chunk a batch. -/
structure Pipeline where
  fetcher : Fetcher
  evaluator : Evaluator

/-- A batch, or a failure after which nothing follows, or the end. -/
abbrev NextBatch := Option (Except QueryError WindowBatch)

namespace Pipeline

/-- Evaluates what the fetcher handed out. A failed evaluation calls off the fetch that is already
under way. -/
def react (p : Pipeline) (next : Option (Except QueryError Chunk)) :
    Except Fault (NextBatch × Pipeline) :=
  match next with
  | none => .ok (none, { p with evaluator := p.evaluator.finish })
  | some (.error e) => .ok (some (.error e), { p with evaluator := p.evaluator.fail })
  | some (.ok chunk) => do
    match ← p.evaluator.evaluate chunk with
    | (.ok batch, evaluator) => return (some (.ok batch), { p with evaluator })
    | (.error e, evaluator) => return (some (.error e), ⟨p.fetcher.cancel, evaluator⟩)

/-- The next batch as far as it can be had without waiting. -/
def poll (p : Pipeline) : Except Fault (Poll NextBatch × Pipeline) :=
  if p.evaluator.phase.isTerminal then .ok (.ready none, p)
  else do
    let (next, fetcher) := p.fetcher.poll
    let p : Pipeline := ⟨fetcher, p.evaluator.awaitChunk⟩
    match next with
    | .pending => return (.pending, p)
    | .ready next =>
      let (batch, p) ← p.react next
      return (.ready batch, p)

/-- Waits for the next batch, a failure or the end. -/
def next (p : Pipeline) : Except Fault (NextBatch × Pipeline) := do
  match ← p.poll with
  | (.ready batch, p) => return (batch, p)
  | (.pending, p) =>
    match ← (Pipeline.mk p.fetcher.waitForTask p.evaluator).poll with
    | (.ready batch, p) => return (batch, p)
    | (.pending, p) => return (none, p)

/-- Waits no longer than `patience`; what is ready only then is left for a later call. -/
def nextWithin (p : Pipeline) (patience : Nat) : Except Fault (Poll NextBatch × Pipeline) := do
  match ← p.poll with
  | (.ready batch, p) => return (.ready batch, p)
  | (.pending, p) =>
    if patience = 0 then return (.pending, p)
    let fetcher := p.fetcher.start
    if fetcher.due?.any (· < fetcher.now + patience) then
      (Pipeline.mk fetcher.waitForTask p.evaluator).poll
    else return (.pending, { p with fetcher := fetcher.waitUntil (fetcher.now + patience) })

def sleep (p : Pipeline) (duration : Nat) : Pipeline :=
  { p with fetcher := p.fetcher.sleep duration }

/-- The consumer goes away. -/
def drop (p : Pipeline) : Pipeline := { p with fetcher := p.fetcher.cancel }

end Pipeline

end SeriesStream
