import SeriesStream.Fault
import SeriesStream.Http.Message

namespace SeriesStream.Http

/-- The origins that browsers may call from. -/
inductive CorsPolicy
  | any
  | only (origins : List String)
  deriving DecidableEq, Repr

namespace CorsPolicy

/-- A text that a header can hold. -/
def isHeaderValue (s : String) : Bool :=
  s.toList.all fun c => c = '\t' || (0x20 ≤ c.toNat && c.toNat ≠ 0x7f)

/-- The policy of a list of origins. Without any, all are welcome; what no header can hold is left
out; and the sign for all origins must not be listed. -/
def ofOrigins (origins : List String) : Except Fault CorsPolicy :=
  if origins.isEmpty then .ok any
  else
    let origins := origins.filter isHeaderValue
    if origins.contains "*" then .error .wildcardOrigin else .ok (only origins)

/-- What every answer tells the browser about the origin of its request. -/
def originHeaders (p : CorsPolicy) (r : Request) : List (String × String) :=
  let allowed : Option String := match p with
    | any => some "*"
    | only origins => (r.header? "origin").filter (origins.contains ·)
  allowed.toList.map (("access-control-allow-origin", ·))

/-- What a browser is told that asks before it calls. -/
def askingHeaders : List (String × String) :=
  [("access-control-allow-methods", "GET,POST,OPTIONS"), ("access-control-allow-headers", "*")]

end CorsPolicy

end SeriesStream.Http
