import SeriesStream.Text.Glyph

namespace SeriesStream.Glyph

/-- Six bits are found again in the byte that continues a character with them. -/
theorem tail?_continued (n : Nat) : tail? (UInt8.ofNat (n % 64 + 0x80)) = some (n % 64) := by
  have hall : ∀ x < 64, tail? (UInt8.ofNat (x + 0x80)) = some x := by decide
  exact hall (n % 64) (Nat.mod_lt n (by decide))

theorem char?_toNat {least : Nat} {c : Char} (h : least ≤ c.toNat) : char? least c.toNat = some c := by
  have hvalid : c.toNat.isValidChar := c.valid
  simp [char?, h, hvalid, Char.ofNat_toNat]

/-! The leading byte tells by its highest bits how many bytes continue the character. -/

section

variable {n : Nat} (rest : List UInt8)

theorem first?_one (h : n < 0x80) : first? (UInt8.ofNat n :: rest) = (char? 0 n).map (·, 1) := by
  have hsmall : n < 256 := by omega
  simp only [first?, UInt8.ofNat_lt_iff hsmall, UInt8.toNat_ofNat_of_lt' hsmall]
  rw [if_pos (by show n < 0x80; exact h)]

theorem first?_two (h : n < 0x20) (i : Nat) :
    first? (UInt8.ofNat (n + 0xc0) :: UInt8.ofNat (i % 64 + 0x80) :: rest) =
      (char? 0x80 (n * 64 + i % 64)).map (·, 2) := by
  have hsmall : n + 0xc0 < 256 := by omega
  simp only [first?, UInt8.ofNat_lt_iff hsmall, UInt8.toNat_ofNat_of_lt' hsmall, tail?_continued]
  rw [if_neg (by show ¬n + 0xc0 < 0x80; omega), if_neg (by show ¬n + 0xc0 < 0xc0; omega),
    if_pos (by show n + 0xc0 < 0xe0; omega), Nat.add_sub_cancel]
  exact Option.map_eq_bind.symm

theorem first?_three (h : n < 0x10) (i j : Nat) :
    first? (UInt8.ofNat (n + 0xe0) :: UInt8.ofNat (i % 64 + 0x80) :: UInt8.ofNat (j % 64 + 0x80) :: rest) =
      (char? 0x800 ((n * 64 + i % 64) * 64 + j % 64)).map (·, 3) := by
  have hsmall : n + 0xe0 < 256 := by omega
  simp only [first?, UInt8.ofNat_lt_iff hsmall, UInt8.toNat_ofNat_of_lt' hsmall, tail?_continued]
  rw [if_neg (by show ¬n + 0xe0 < 0x80; omega), if_neg (by show ¬n + 0xe0 < 0xc0; omega),
    if_neg (by show ¬n + 0xe0 < 0xe0; omega), if_pos (by show n + 0xe0 < 0xf0; omega), Nat.add_sub_cancel]
  exact Option.map_eq_bind.symm

theorem first?_four (h : n < 0x08) (i j k : Nat) :
    first? (UInt8.ofNat (n + 0xf0) :: UInt8.ofNat (i % 64 + 0x80) :: UInt8.ofNat (j % 64 + 0x80) ::
      UInt8.ofNat (k % 64 + 0x80) :: rest) =
      (char? 0x10000 (((n * 64 + i % 64) * 64 + j % 64) * 64 + k % 64)).map (·, 4) := by
  have hsmall : n + 0xf0 < 256 := by omega
  simp only [first?, UInt8.ofNat_lt_iff hsmall, UInt8.toNat_ofNat_of_lt' hsmall, tail?_continued]
  rw [if_neg (by show ¬n + 0xf0 < 0x80; omega), if_neg (by show ¬n + 0xf0 < 0xc0; omega),
    if_neg (by show ¬n + 0xf0 < 0xe0; omega), if_neg (by show ¬n + 0xf0 < 0xf0; omega),
    if_pos (by show n + 0xf0 < 0xf8; omega), Nat.add_sub_cancel]
  exact Option.map_eq_bind.symm

end

/-- A character is read from its bytes, whatever comes behind them. -/
theorem first?_encoded (c : Char) (rest : List UInt8) :
    first? (String.utf8EncodeChar c ++ rest) = some (c, (String.utf8EncodeChar c).length) := by
  have hsize : c.toNat < 0x110000 := by
    have hvalid : c.toNat.isValidChar := c.valid
    unfold Nat.isValidChar at hvalid
    omega
  have hv : c.val.toNat = c.toNat := rfl
  simp only [String.utf8EncodeChar, hv]
  by_cases h1 : c.toNat ≤ 0x7f
  · rw [if_pos h1, List.cons_append, first?_one _ (by omega), char?_toNat (Nat.zero_le _)]
    rfl
  by_cases h2 : c.toNat ≤ 0x7ff
  · have hnumber : c.toNat / 64 % 0x20 * 64 + c.toNat % 64 = c.toNat := by omega
    rw [if_neg h1, if_pos h2, List.cons_append, List.cons_append, first?_two _ (Nat.mod_lt _ (by decide)),
      hnumber, char?_toNat (by omega)]
    rfl
  by_cases h3 : c.toNat ≤ 0xffff
  · have hnumber : (c.toNat / 4096 % 0x10 * 64 + c.toNat / 64 % 64) * 64 + c.toNat % 64 = c.toNat := by omega
    rw [if_neg h1, if_neg h2, if_pos h3, List.cons_append, List.cons_append, List.cons_append,
      first?_three _ (Nat.mod_lt _ (by decide)), hnumber, char?_toNat (by omega)]
    rfl
  · have hnumber : ((c.toNat / 262144 % 0x08 * 64 + c.toNat / 4096 % 64) * 64 + c.toNat / 64 % 64) * 64 +
        c.toNat % 64 = c.toNat := by omega
    rw [if_neg h1, if_neg h2, if_neg h3, List.cons_append, List.cons_append, List.cons_append, List.cons_append,
      first?_four _ (Nat.mod_lt _ (by decide)), hnumber, char?_toNat (by omega)]
    rfl

theorem ofBytesAfter_append (taken rest : List UInt8) :
    ofBytesAfter taken.length (taken ++ rest) = ofBytesAfter 0 rest := by
  induction taken with
  | nil => rfl
  | cons b taken ih => exact ih

theorem ofBytes_encoded (cs : List Char) : ofBytes (cs.flatMap String.utf8EncodeChar) = cs.map some := by
  induction cs with
  | nil => rfl
  | cons c cs ih =>
    have hfirst := first?_encoded c (cs.flatMap String.utf8EncodeChar)
    rw [List.flatMap_cons, List.map_cons]
    cases hbytes : String.utf8EncodeChar c with
    | nil => exact absurd hbytes String.utf8EncodeChar_ne_nil
    | cons b taken =>
      rw [hbytes, List.cons_append, List.length_cons] at hfirst
      rw [ofBytes, List.cons_append, ofBytesAfter, hfirst]
      simp only [Nat.add_sub_cancel, ofBytesAfter_append]
      exact congrArg (some c :: ·) ih

theorem text?_map_some (cs : List Char) : text? (cs.map some) = some (String.ofList cs) := by
  have hall : (cs.map some).mapM id = some cs := by
    induction cs with
    | nil => rfl
    | cons c cs ih => simp [List.mapM_cons, ih]
  rw [text?, hall, Option.map_some]

/-- A text is read from its bytes. -/
theorem text?_ofBytes (s : String) : text? (ofBytes s.toUTF8.data.toList) = some s := by
  have hbytes : s.toUTF8.data.toList = s.toList.flatMap String.utf8EncodeChar := by
    rw [String.toUTF8_eq_toByteArray, ← String.utf8Encode_toList, List.utf8Encode,
      List.toList_data_toByteArray]
  rw [hbytes, ofBytes_encoded, text?_map_some, String.ofList_toList]

end SeriesStream.Glyph
