namespace SeriesStream.Duration

/-- Milliseconds in the largest of the units s, ms, ns that leaves a whole part, with up to three
decimals and none for a zero. -/
def render (milliseconds : Nat) : String :=
  if milliseconds = 0 then "0ns"
  else if milliseconds < 1000 then s!"{milliseconds}ms"
  else
    let rest := milliseconds % 1000
    let digits := [rest / 100, rest / 10 % 10, rest % 10].map Nat.digitChar
    let decimals := (digits.reverse.dropWhile (· = '0')).reverse
    let fraction := if decimals.isEmpty then "" else "." ++ String.ofList decimals
    s!"{milliseconds / 1000}{fraction}s"

end SeriesStream.Duration
