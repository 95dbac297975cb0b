namespace SeriesStream

/-- An address of a host, by its numbers. -/
inductive Host
  | v4 (octets : List Nat)
  | v6 (groups : List Nat) (scope : Nat)
  deriving DecidableEq, Repr

structure SocketAddress where
  host : Host
  /-- The number of the service on the host. -/
  service : Nat
  deriving DecidableEq, Repr

namespace SocketAddress

/-! Each reader gives back the text behind what it has read. -/

def digit? (base : Nat) (c : Char) : Option Nat :=
  let n :=
    if c.isDigit then c.toNat - 48
    else if 'a' ≤ c ∧ c ≤ 'z' then c.toNat - 87
    else if 'A' ≤ c ∧ c ≤ 'Z' then c.toNat - 55
    else base
  if n < base then some n else none

def digits (base : Nat) : List Char → List Nat × List Char
  | c :: rest =>
    match digit? base c with
    | some n =>
      let (more, rest) := digits base rest
      (n :: more, rest)
    | none => ([], c :: rest)
  | [] => ([], [])

/-- A number below `bound`, as it stands up to the first character that is no digit. -/
def number? (base bound : Nat) (s : List Char) : Option (Nat × List Char) :=
  match digits base s with
  | ([], _) => none
  | (ds, rest) =>
    let n := ds.foldl (fun n d => n * base + d) 0
    if n < bound then some (n, rest) else none

/-- A number of at most three digits below 256, without zeros in front. -/
def octet? (s : List Char) : Option (Nat × List Char) :=
  let ds := (digits 10 s).1
  if ds.length ≤ 3 ∧ (ds.length = 1 ∨ ds.head? ≠ some 0) then number? 10 256 s else none

/-- Four hexadecimal digits at most. -/
def group? (s : List Char) : Option (Nat × List Char) :=
  if (digits 16 s).1.length ≤ 4 then number? 16 65536 s else none

def sign? (c : Char) : List Char → Option (List Char)
  | d :: rest => if d = c then some rest else none
  | [] => none

def v4? (s : List Char) : Option (List Nat × List Char) := do
  let (a, s) ← octet? s
  let (b, s) ← octet? (← sign? '.' s)
  let (c, s) ← octet? (← sign? '.' s)
  let (d, s) ← octet? (← sign? '.' s)
  return ([a, b, c, d], s)

/-- The text behind the colon that separates a group from those before it. -/
def separated? (first : Bool) (s : List Char) : Option (List Char) :=
  if first then some s else sign? ':' s

/-- At most `limit` groups with colons between them. Where two or more are left, an address of four
octets can stand for the last two; it is told whether one does. -/
def groups (first : Bool) : Nat → List Char → List Nat × Bool × List Char
  | 0, s => ([], false, s)
  | limit + 1, s =>
    let tail? : Option (List Nat × List Char) :=
      if limit = 0 then none else (separated? first s).bind v4?
    match tail? with
    | some ([a, b, c, d], rest) => ([a * 256 + b, c * 256 + d], true, rest)
    | _ =>
      match (separated? first s).bind group? with
      | some (g, rest) =>
        let (more, mixed, rest) := groups false limit rest
        (g :: more, mixed, rest)
      | none => ([], false, s)

/-- Eight groups, of which two colons in a row leave out one or more that are zero. -/
def v6? (s : List Char) : Option (List Nat × List Char) :=
  let (head, mixed, rest) := groups true 8 s
  if head.length = 8 then some (head, rest)
  else if mixed then none
  else do
    let rest ← sign? ':' (← sign? ':' rest)
    let (tail, _, rest) := groups true (7 - head.length) rest
    return (head ++ List.replicate (8 - head.length - tail.length) 0 ++ tail, rest)

def service? (s : List Char) : Option Nat := do
  match ← number? 10 65536 (← sign? ':' s) with
  | (n, []) => some n
  | _ => none

/-- A host by its numbers with a service behind it. Names of hosts are not looked up. -/
def ofString? (s : String) : Option SocketAddress :=
  match s.toList with
  | '[' :: rest => do
    let (groups, rest) ← v6? rest
    let (scope, rest) := ((sign? '%' rest).bind (number? 10 4294967296)).getD (0, rest)
    return ⟨.v6 groups scope, ← service? (← sign? ']' rest)⟩
  | s => do
    let (octets, rest) ← v4? s
    return ⟨.v4 octets, ← service? rest⟩

end SocketAddress

end SeriesStream
