import SeriesStream.Toml.Number

namespace SeriesStream.Toml

/-- A character that a line can hold as it is: any but the controls, and the tab. -/
def isPlain (c : Char) : Bool := c = '\t' || (0x20 ≤ c.toNat && c.toNat ≠ 0x7f)

def isBlank (c : Char) : Bool := c = ' ' || c = '\t'

/-- The text behind the end of a line. -/
def newline? : List Char → Option (List Char)
  | '\n' :: rest => some rest
  | '\r' :: '\n' :: rest => some rest
  | _ => none

/-! Strings are read from behind their opening quotes up to their closing ones. -/

/-- The character that a letter stands for behind a backslash. -/
def unescape? : Char → Option Char
  | '"' => some '"'
  | '\\' => some '\\'
  | 'b' => some '\x08'
  | 't' => some '\t'
  | 'n' => some '\n'
  | 'f' => some '\x0c'
  | 'r' => some '\r'
  | _ => none

/-- The character that hexadecimal digits number. -/
def numbered? (digits : List Char) : Option Char :=
  let n := digitsValue 16 digits
  if digits.all isHexDigit ∧ n.isValidChar then some (Char.ofNat n) else none

/-- A string on one line, with escapes. -/
def scanBasic : List Char → Option (List Char × List Char)
  | '"' :: rest => some ([], rest)
  | '\\' :: 'u' :: a :: b :: c :: d :: rest => do
    let x ← numbered? [a, b, c, d]
    let (s, rest) ← scanBasic rest
    return (x :: s, rest)
  | '\\' :: 'U' :: a :: b :: c :: d :: e :: f :: g :: h :: rest => do
    let x ← numbered? [a, b, c, d, e, f, g, h]
    let (s, rest) ← scanBasic rest
    return (x :: s, rest)
  | '\\' :: c :: rest => do
    let x ← unescape? c
    let (s, rest) ← scanBasic rest
    return (x :: s, rest)
  | c :: rest =>
    if isPlain c ∧ c ≠ '\\' then do
      let (s, rest) ← scanBasic rest
      return (c :: s, rest)
    else none
  | [] => none

/-- A string on one line, without escapes. -/
def scanLiteral : List Char → Option (List Char × List Char)
  | '\'' :: rest => some ([], rest)
  | c :: rest =>
    if isPlain c then do
      let (s, rest) ← scanLiteral rest
      return (c :: s, rest)
    else none
  | [] => none

/-- A backslash at the end of its line, blanks aside. -/
def endsLine (s : List Char) : Bool := (newline? (s.dropWhile isBlank)).isSome

/-- A string over several lines, with escapes. Up to two quotes in a row belong to it, also at its
end. Behind a backslash at the end of a line, blanks and line ends are passed over. -/
def scanBasicBlock : Bool → List Char → Option (List Char × List Char)
  | _, '"' :: '"' :: '"' :: '"' :: '"' :: rest => some (['"', '"'], rest)
  | _, '"' :: '"' :: '"' :: '"' :: rest => some (['"'], rest)
  | _, '"' :: '"' :: '"' :: rest => some ([], rest)
  | _, '\\' :: 'u' :: a :: b :: c :: d :: rest => do
    let x ← numbered? [a, b, c, d]
    let (s, rest) ← scanBasicBlock false rest
    return (x :: s, rest)
  | _, '\\' :: 'U' :: a :: b :: c :: d :: e :: f :: g :: h :: rest => do
    let x ← numbered? [a, b, c, d, e, f, g, h]
    let (s, rest) ← scanBasicBlock false rest
    return (x :: s, rest)
  | _, '\\' :: c :: rest =>
    if endsLine (c :: rest) then scanBasicBlock true (c :: rest)
    else do
      let x ← unescape? c
      let (s, rest) ← scanBasicBlock false rest
      return (x :: s, rest)
  | passing, '\r' :: '\n' :: rest => do
    let (s, rest) ← scanBasicBlock passing rest
    return (if passing then s else '\n' :: s, rest)
  | passing, c :: rest =>
    if passing ∧ (isBlank c ∨ c = '\n') then scanBasicBlock true rest
    else if (isPlain c ∨ c = '\n') ∧ c ≠ '\\' then do
      let (s, rest) ← scanBasicBlock false rest
      return (c :: s, rest)
    else none
  | _, [] => none

/-- A string over several lines, without escapes. Up to two quotes in a row belong to it. -/
def scanLiteralBlock : List Char → Option (List Char × List Char)
  | '\'' :: '\'' :: '\'' :: '\'' :: '\'' :: rest => some (['\'', '\''], rest)
  | '\'' :: '\'' :: '\'' :: '\'' :: rest => some (['\''], rest)
  | '\'' :: '\'' :: '\'' :: rest => some ([], rest)
  | '\r' :: '\n' :: rest => do
    let (s, rest) ← scanLiteralBlock rest
    return ('\n' :: s, rest)
  | c :: rest =>
    if isPlain c ∨ c = '\n' then do
      let (s, rest) ← scanLiteralBlock rest
      return (c :: s, rest)
    else none
  | [] => none

/-- The text without a line end at its front. -/
def skipNewline (s : List Char) : List Char := (newline? s).getD s

/-- A string of any form. -/
def scanString : List Char → Option (List Char × List Char)
  | '"' :: '"' :: '"' :: rest => scanBasicBlock false (skipNewline rest)
  | '"' :: rest => scanBasic rest
  | '\'' :: '\'' :: '\'' :: rest => scanLiteralBlock (skipNewline rest)
  | '\'' :: rest => scanLiteral rest
  | _ => none

/-! A string is written in the plainest form that shows it without escapes. -/

inductive QuotedForm
  | basic
  | literal
  | basicBlock
  | literalBlock
  deriving DecidableEq, Repr

/-- The length of the longest run of `q`, behind `run` of them. -/
def longestRun (q : Char) : Nat → List Char → Nat
  | run, [] => run
  | run, c :: rest => if c = q then longestRun q (run + 1) rest else max run (longestRun q 0 rest)

/-- The form that a text is written in. -/
def QuotedForm.of (s : List Char) : QuotedForm :=
  let clean := s.all fun c => isPlain c || c = '\n'
  let plain := clean && !s.contains '\\'
  let lines := s.contains '\n'
  let singles := longestRun '\'' 0 s
  let doubles := longestRun '"' 0 s
  if plain ∧ doubles = 0 ∧ ¬ lines then .basic
  else if clean ∧ singles = 0 ∧ ¬ lines then .literal
  else if plain ∧ doubles ≤ 2 then .basicBlock
  else if clean ∧ singles ≤ 2 then .literalBlock
  else if lines then .basicBlock
  else .basic

/-- A character as it stands in a string with escapes, quotes aside. -/
def escape (c : Char) : List Char :=
  match c with
  | '\x08' => ['\\', 'b']
  | '\t' => ['\\', 't']
  | '\n' => ['\\', 'n']
  | '\x0c' => ['\\', 'f']
  | '\r' => ['\\', 'r']
  | '\\' => ['\\', '\\']
  | c =>
    if isPlain c then [c]
    else
      ['\\', 'u', '0', '0', (Nat.digitChar (c.toNat / 16)).toUpper,
        (Nat.digitChar (c.toNat % 16)).toUpper]

/-- The content of a string on one line. -/
def writeBasic (s : List Char) : List Char :=
  s.flatMap fun c => if c = '"' then ['\\', '"'] else escape c

/-- The content of a string over several lines, behind `run` quotes. The third quote of a row is
escaped. -/
def writeBasicBlock : Nat → List Char → List Char
  | _, [] => []
  | run, c :: rest =>
    if c = '"' then
      if run < 2 then '"' :: writeBasicBlock (run + 1) rest
      else '\\' :: '"' :: writeBasicBlock 0 rest
    else if c = '\n' then '\n' :: writeBasicBlock 0 rest
    else escape c ++ writeBasicBlock 0 rest

/-- The string in quotes. A text of several lines starts on a line of its own. -/
def writeString (s : List Char) : List Char :=
  let opening : List Char := if s.contains '\n' then ['\n'] else []
  match QuotedForm.of s with
  | .basic => '"' :: writeBasic s ++ ['"']
  | .literal => '\'' :: s ++ ['\'']
  | .basicBlock => ['"', '"', '"'] ++ opening ++ writeBasicBlock 0 s ++ ['"', '"', '"']
  | .literalBlock => ['\'', '\'', '\''] ++ opening ++ s ++ ['\'', '\'', '\'']

end SeriesStream.Toml
