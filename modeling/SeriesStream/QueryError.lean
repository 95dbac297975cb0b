namespace SeriesStream

inductive QueryErrorKind
  | invalidRange
  | validation
  | fetchFailed
  | timeout
  | evaluation
  | cancelled
  | internal
  deriving DecidableEq, Repr

namespace QueryErrorKind

def all : List QueryErrorKind :=
  [invalidRange, validation, fetchFailed, timeout, evaluation, cancelled, internal]

/-- The kind as it opens a message. -/
def name : QueryErrorKind → String
  | invalidRange => "InvalidRange"
  | validation => "ValidationError"
  | fetchFailed => "FetchFailed"
  | timeout => "Timeout"
  | evaluation => "EvaluationError"
  | cancelled => "Cancelled"
  | internal => "Internal"

/-- The kind as it labels a counter or an answer. -/
def label : QueryErrorKind → String
  | invalidRange => "invalid_range"
  | validation => "validation"
  | fetchFailed => "fetch_failed"
  | timeout => "timeout"
  | evaluation => "evaluation"
  | cancelled => "cancelled"
  | internal => "internal"

/-- The request itself is at fault, not the run that served it. -/
def blamesRequest : QueryErrorKind → Bool
  | invalidRange | validation => true
  | _ => false

end QueryErrorKind

structure QueryError where
  kind : QueryErrorKind
  message : String
  deriving DecidableEq, Repr

namespace QueryError

def render (e : QueryError) : String := e.kind.name ++ ": " ++ e.message

/-- The same failure, told of the expression that met it. -/
def within (e : QueryError) (expression : String) : QueryError :=
  { e with message := s!"expression '{expression}': {e.message}" }

end QueryError

end SeriesStream
