import SeriesStream.Http.MediaType
import SeriesStream.Json.Decoder

namespace SeriesStream.Http

inductive Method
  | get
  | head
  | post
  | options
  /-- Any other method. -/
  | other (name : String)
  deriving DecidableEq, Repr

def Method.ofString : String → Method
  | "GET" => get
  | "HEAD" => head
  | "POST" => post
  | "OPTIONS" => options
  | name => other name

structure Request where
  method : Method
  /-- The path with what may follow it. -/
  target : String
  headers : List (String × String)
  body : List Glyph

namespace Request

/-- The value of a header; case does not matter in its name. -/
def header? (r : Request) (name : String) : Option String :=
  (r.headers.find? fun h => h.1.map Char.toLower = name).map (·.2)

/-- The target without query and fragment. -/
def path (r : Request) : String :=
  String.ofList (r.target.toList.takeWhile fun c => c ≠ '?' && c ≠ '#')

def isJson (r : Request) : Bool :=
  ((r.header? "content-type").bind MediaType.ofString?).any MediaType.isJson

end Request

structure Response where
  status : Nat
  headers : List (String × String)
  body : String
  deriving DecidableEq, Repr

namespace Response

def empty (status : Nat) : Response := ⟨status, [], ""⟩

def json (status : Nat) (v : Json) : Response :=
  ⟨status, [("content-type", "application/json")], v.toText⟩

/-- A refusal in words. -/
def refusal (status : Nat) (message : String) : Response :=
  ⟨status, [("content-type", "text/plain; charset=utf-8")], message⟩

def withHeaders (r : Response) (headers : List (String × String)) : Response :=
  { r with headers := r.headers ++ headers }

end Response

end SeriesStream.Http
