namespace SeriesStream

/-- One unit of a text that arrives as bytes: a character, or a byte that is part of none. -/
abbrev Glyph := Option Char

namespace Glyph

def ofString (s : String) : List Glyph := s.toList.map some

/-- Six bits of a byte that continues a character. -/
def tail? (b : UInt8) : Option Nat := if b &&& 0xC0 = 0x80 then some (b &&& 0x3F).toNat else none

/-- The character of this number, unless a shorter form would have been enough for it. -/
def char? (least n : Nat) : Option Char :=
  if least ≤ n ∧ n.isValidChar then some (Char.ofNat n) else none

/-- The character at the front of the bytes, with the number of bytes it takes. -/
def first? : List UInt8 → Option (Char × Nat)
  | [] => none
  | a :: rest =>
    if a < 0x80 then (char? 0 a.toNat).map (·, 1)
    else if a < 0xC0 then none
    else if a < 0xE0 then
      match rest with
      | b :: _ => do
        let c ← char? 0x80 ((a.toNat - 0xC0) * 64 + (← tail? b))
        return (c, 2)
      | _ => none
    else if a < 0xF0 then
      match rest with
      | b :: c :: _ => do
        let c ← char? 0x800 (((a.toNat - 0xE0) * 64 + (← tail? b)) * 64 + (← tail? c))
        return (c, 3)
      | _ => none
    else if a < 0xF8 then
      match rest with
      | b :: c :: d :: _ => do
        let high := ((a.toNat - 0xF0) * 64 + (← tail? b)) * 64 + (← tail? c)
        let c ← char? 0x10000 (high * 64 + (← tail? d))
        return (c, 4)
      | _ => none
    else none

/-- Reads on after `skip` more bytes of the character before. -/
def ofBytesAfter : Nat → List UInt8 → List Glyph
  | _, [] => []
  | skip + 1, _ :: rest => ofBytesAfter skip rest
  | 0, b :: rest =>
    match first? (b :: rest) with
    | some (c, taken) => some c :: ofBytesAfter (taken - 1) rest
    | none => none :: ofBytesAfter 0 rest

/-- The characters that the bytes encode, and each byte that belongs to none. -/
def ofBytes (bytes : List UInt8) : List Glyph := ofBytesAfter 0 bytes

/-- The text, if every unit is a character. -/
def text? (glyphs : List Glyph) : Option String := (glyphs.mapM id).map String.ofList

end Glyph

end SeriesStream
